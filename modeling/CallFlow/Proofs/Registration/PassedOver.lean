import CallFlow.Proofs.Registration.File
import CallFlow.Proofs.Registration.Steps

/-!
# What a walk passes over

Every call and every function of a module is either registered or inside a part that the walk over
the module passes over, and the two add up. So nothing is lost outside of such parts, and what is
inside of one is lost.
-/

namespace CallFlow

namespace Syntax

/-! ## The account of a piece -/

/-- The walk over a piece comes to one with a part that it passes over, and the part has the
site. -/
def Piece.PassesOver (p : Piece) (site : Site) : Prop :=
  ∃ outer part, Relation.ReflTransGen (fun a b => .enter b ∈ a.steps) p outer ∧
    .passOver part ∈ outer.steps ∧ site ∈ part.sites

/-- A step by which a site is lost. -/
def Step.Loses (site : Site) : Step → Prop
  | enter part => part.PassesOver site
  | passOver part => site ∈ part.sites

/-- A site is passed over at the piece itself or somewhere below a part that is entered. -/
theorem Piece.passesOver_iff {p : Piece} {site : Site} :
    p.PassesOver site ↔ ∃ step ∈ p.steps, step.Loses site := by
  constructor
  · rintro ⟨outer, part, hreach, hpart, hsite⟩
    -- the part is passed over here or further down
    rcases Relation.ReflTransGen.cases_head hreach with rfl | ⟨next, hnext, hrest⟩
    · exact ⟨_, hpart, hsite⟩
    · exact ⟨_, hnext, outer, part, hrest, hpart, hsite⟩
  · rintro ⟨step, hstep, hloses⟩
    -- a site is lost in a part that is entered, or with a part that is not
    cases step with
    | enter next =>
      obtain ⟨outer, part, hreach, hpart, hsite⟩ := hloses
      exact ⟨outer, part, .head hstep hreach, hpart, hsite⟩
    | passOver part => exact ⟨p, part, .refl, hstep, hloses⟩

/-- What a walk comes to and what it passes over is all that there is, nothing twice. -/
def Accounted (found all : List Site) (Lost : Site → Prop) : Prop :=
  ∃ lost, (found ++ lost).Perm all ∧ ∀ site, site ∈ lost ↔ Lost site

/-- If the sites of each part are accounted for, so are those of all parts together. -/
theorem Accounted.flatMap {α : Type} {found all : α → List Site} {Lost : Site → α → Prop}
    (as : List α) (h : ∀ a ∈ as, Accounted (found a) (all a) (Lost · a)) :
    Accounted (as.flatMap found) (as.flatMap all) fun site => ∃ a ∈ as, Lost site a := by
  induction as with
  | nil => exact ⟨[], .nil, by simp⟩
  | cons a as ih =>
    obtain ⟨lost, hperm, hlost⟩ := h a List.mem_cons_self
    obtain ⟨rest, hperm', hrest⟩ := ih fun b hb => h b (List.mem_cons_of_mem a hb)
    refine ⟨lost ++ rest, ?_, fun site => ?_⟩
    · rw [List.flatMap_cons, List.flatMap_cons, List.append_assoc]
      -- what was lost of the first comes before what was found of the others
      have hswap := (List.perm_append_comm_assoc (as.flatMap found) lost rest).append_left (found a)
      rw [← List.append_assoc (found a) lost] at hswap
      exact hswap.trans (hperm.append hperm')
    · rw [List.mem_append, hlost, hrest]
      simp

/-- What is found and what is lost add up. The induction is on the size of the piece: the parts that
a walk enters account for their sites by themselves, and all sites of the others are lost. -/
theorem Piece.accounted (receiver : Bool) (p : Piece) :
    Accounted (firsts (p.visits receiver)) p.sites p.PassesOver := by
  obtain ⟨inner, hfirsts⟩ := p.firsts_visits_eq receiver
  -- the receiver may differ from part to part, what is found first does not depend on it
  have hsteps : Accounted
      (p.steps.flatMap fun step => step.ifEntered fun part => firsts (part.visits (inner part)))
      (p.steps.flatMap fun step => step.part.sites)
      fun site => ∃ step ∈ p.steps, step.Loses site :=
    .flatMap p.steps fun step hstep => by
      have hsmaller := Piece.sizeOf_steps hstep
      cases step with
      | enter part => exact part.accounted (inner part)
      | passOver part => exact ⟨part.sites, .refl _, fun _ => Iff.rfl⟩
  obtain ⟨lost, hperm, hlost⟩ := hsteps
  refine ⟨lost, ?_, fun site => (hlost site).trans passesOver_iff.symm⟩
  -- the piece itself is a site of its own, and it is found
  rw [hfirsts, p.sites_eq, List.append_assoc]
  exact hperm.append_left _
termination_by sizeOf p

/-- The sites of a piece are those of all pieces inside. -/
theorem Piece.mem_sites {p : Piece} {site : Site} : site ∈ p.sites ↔
    ∃ inner, Relation.ReflTransGen (fun a b => b ∈ a.parts) p inner ∧ inner.site? = some site := by
  rw [mem_sites_iff_parts, List.mem_append, Option.mem_toList, List.mem_flatMap]
  constructor
  -- the induction goes down to the part that holds the site
  · rintro (hself | ⟨part, hpart, hsite⟩)
    · exact ⟨p, .refl, hself⟩
    · have hsmaller := Piece.sizeOf_parts hpart
      obtain ⟨inner, hreach, hinner⟩ := Piece.mem_sites.1 hsite
      exact ⟨inner, .head hpart hreach, hinner⟩
  · rintro ⟨inner, hreach, hinner⟩
    -- either the way has no step, or its first step goes to a part
    rcases Relation.ReflTransGen.cases_head hreach with rfl | ⟨part, hpart, hrest⟩
    · exact Or.inl hinner
    · have hsmaller := Piece.sizeOf_parts hpart
      exact Or.inr ⟨part, hpart, Piece.mem_sites.2 ⟨inner, hrest, hinner⟩⟩
termination_by sizeOf p

/-! ## The account of a module -/

namespace Module

/-- A walk over the module passes over a part with the site. -/
def PassesOver (m : Module) (site : Site) : Prop :=
  ∃ item ∈ m.items, ∃ top ∈ item.parts, top.PassesOver site

theorem sites_eq (m : Module) :
    m.sites = m.items.flatMap fun item => item.parts.flatMap Piece.sites := by
  unfold sites
  congr 1
  funext item
  cases item <;> simp [ModuleItem.sites, ModuleItem.parts, Piece.sites]

/-- A site of a module is a call or a function that the module holds. -/
theorem mem_sites {m : Module} {site : Site} :
    site ∈ m.sites ↔ ∃ piece, m.Holds piece ∧ piece.site? = some site := by
  simp only [sites_eq, List.mem_flatMap, Piece.mem_sites]
  constructor
  · rintro ⟨item, hitem, top, htop, piece, hreach, hsite⟩
    exact ⟨piece, ⟨item, hitem, top, htop, hreach⟩, hsite⟩
  · rintro ⟨piece, ⟨item, hitem, top, htop, hreach⟩, hsite⟩
    exact ⟨item, hitem, top, htop, piece, hreach, hsite⟩

end Module

/-- Items are walked with no function around, and what they hold is accounted for. -/
theorem ModuleItem.accounted (item : ModuleItem) :
    Accounted (firsts item.visits) (item.parts.flatMap Piece.sites) fun site =>
      ∃ top ∈ item.parts, top.PassesOver site := by
  -- an item that holds a tree holds one only
  have hone : ∀ (receiver : Bool) (p : Piece), Accounted (firsts (p.visits receiver))
      ([p].flatMap Piece.sites) fun site => ∃ top ∈ [p], top.PassesOver site := by
    intro receiver p
    simpa using p.accounted receiver
  cases item with
  | stmt s => exact hone false (.stmt s)
  | exportDecl d => exact hone false (.decl d)
  | exportDefaultFunction _ f => exact hone true (.func f)
  | exportDefaultClass _ c => exact hone false (.class c)
  | exportDefaultExpr e | exportAssignment e => exact hone false (.expr e)
  -- imports and lists of names have no sites
  | importNames _ _ | importEquals _ _ | exportNames _ _ | inert =>
    exact ⟨[], .nil, by simp [ModuleItem.parts]⟩

theorem Module.accounted (m : Module) :
    Accounted (firsts m.visits) m.sites m.PassesOver := by
  rw [Module.visits, firsts_flatMap, m.sites_eq]
  exact Accounted.flatMap m.items fun item _ => item.accounted

end Syntax

open Syntax

namespace FlowState

variable (state : FlowState) (path : Path) (lines : LineTable) (m : Module)

/-- **Nothing is lost outside of what is passed over.** Every call and every function that occurs
in a module is registered with the file, unless the walk passes over a part that it is in; what
is registered and what is passed over add up to what occurs, apart from what a default repeats;
and where no two sites are alike, what is passed over is not registered. -/
theorem registered_unless_passedOver :
    (∀ piece site, m.Holds piece → piece.site? = some site →
      site ∈ state.registered path lines m ∨ m.PassesOver site) ∧
    (∀ site, site ∈ state.registered path lines m ∨ m.PassesOver site →
      ∃ piece, m.Holds piece ∧ piece.site? = some site) ∧
    (∃ lost, (state.registered path lines m ++ lost).Perm (m.sites ++ repeats m.visits) ∧
      ∀ site, site ∈ lost ↔ m.PassesOver site) ∧
    (m.sites.Nodup → ∀ site, m.PassesOver site → site ∉ state.registered path lines m) := by
  have hregistered := state.registered_perm_firsts_repeats path lines m
  obtain ⟨lost, hperm, hlost⟩ := m.accounted
  -- what is registered again has been registered before, so repeats add no site
  have hmem : ∀ site, site ∈ state.registered path lines m ↔ site ∈ firsts m.visits := by
    intro site
    rw [hregistered.mem_iff, List.mem_append]
    exact ⟨fun h => h.elim id (m.covered.repeats_mem site), Or.inl⟩
  have hsites : ∀ site, site ∈ m.sites ↔
      site ∈ state.registered path lines m ∨ m.PassesOver site := fun site => by
    rw [← hperm.mem_iff, List.mem_append, hmem, hlost]
  refine ⟨fun piece site hpiece hsite => ?_, fun site h => ?_, ⟨lost, ?_, hlost⟩,
    fun hnodup site hpassed hfound => ?_⟩
  · exact (hsites site).1 (Module.mem_sites.2 ⟨piece, hpiece, hsite⟩)
  · exact Module.mem_sites.1 ((hsites site).2 h)
  -- the repeats stand between what is found first and what is lost
  · refine (hregistered.append_right lost).trans ?_
    rw [List.append_assoc]
    refine (List.perm_append_comm.append_left _).trans ?_
    rw [← List.append_assoc]
    exact hperm.append_right _
  -- with no site twice in the module, none can be both found and lost
  · have hdisjoint := (List.nodup_append.1 (hperm.nodup_iff.2 hnodup)).2.2
    exact hdisjoint site ((hmem site).1 hfound) site ((hlost site).2 hpassed) rfl

/-- The decorator of the field is passed over, and with it the only call. -/
def decoratedFieldModule : Module where
  items := [.stmt (.decl (.class "C" (.mk [] none
    [.field [.call false ⟨11, 16⟩ (.ident "dec") []] (.named "x") (some .literal)])))]

/-- A field with a decorator that is a call. -/
def decoratedField : SourceFile where
  path := ⟨"a.js"⟩
  text := "class C \x7b @dec() x = 1 \x7d"
  dialect := .javaScript
  reading := ⟨some decoratedFieldModule.items, []⟩

/-- The call of the decorator is in the module, and no entry of the program stands for it. -/
theorem registered_decoratedField :
    (∃ piece, decoratedFieldModule.Holds piece ∧ piece.site? = some (.call .call ⟨11, 16⟩)) ∧
      decoratedFieldModule.PassesOver (.call .call ⟨11, 16⟩) ∧
      .call .call ⟨11, 16⟩ ∉ ({} : FlowState).registered decoratedField.path decoratedField.lines
        decoratedFieldModule := by
  obtain ⟨hfound, hall, -, hlost⟩ := registered_unless_passedOver {} decoratedField.path
    decoratedField.lines decoratedFieldModule
  have hsites : decoratedFieldModule.sites = [.call .call ⟨11, 16⟩] := by decide +kernel
  have hnone : ({} : FlowState).registered decoratedField.path decoratedField.lines
      decoratedFieldModule = [] := by decide +kernel
  obtain ⟨piece, hpiece, hsite⟩ := Module.mem_sites.1
    (show .call .call ⟨11, 16⟩ ∈ decoratedFieldModule.sites by rw [hsites]; exact .head _)
  have hpassed : decoratedFieldModule.PassesOver (.call .call ⟨11, 16⟩) :=
    (hfound piece _ hpiece hsite).resolve_left (by rw [hnone]; exact List.not_mem_nil)
  exact ⟨⟨piece, hpiece, hsite⟩, hpassed, hlost (by decide +kernel) _ hpassed⟩

end FlowState

end CallFlow
