import CallFlow.Flow.Graph
import CallFlow.Text.Pieces

/-!
# Built-in functions

A built-in function is named after its owner and its own name with `_` between them, as in
`Array_prototype_map`, or after the global alone. It is reached through the property, or the
global, of its own name.
-/

namespace CallFlow.Builtin

/-- The functions known to be built in, in the order in which they are added to a graph. -/
def names : List String := [
  "decodeURI", "decodeURIComponent", "encodeURI", "encodeURIComponent", "escape", "eval",
  "isFinite", "isNaN", "parseFloat", "parseInt", "unescape", "setTimeout", "setInterval",
  "clearTimeout", "clearInterval", "queueMicrotask", "structuredClone", "Array", "Boolean",
  "Date", "Error", "Function", "Map", "Number", "Object", "Promise", "RegExp", "Set", "String",
  "Symbol", "WeakMap", "WeakSet", "Array_isArray", "Array_from", "Array_of",
  "Array_prototype_at", "Array_prototype_concat", "Array_prototype_every",
  "Array_prototype_fill", "Array_prototype_filter", "Array_prototype_find",
  "Array_prototype_findIndex", "Array_prototype_flat", "Array_prototype_flatMap",
  "Array_prototype_forEach", "Array_prototype_includes", "Array_prototype_indexOf",
  "Array_prototype_join", "Array_prototype_lastIndexOf", "Array_prototype_map",
  "Array_prototype_pop", "Array_prototype_push", "Array_prototype_reduce",
  "Array_prototype_reduceRight", "Array_prototype_reverse", "Array_prototype_shift",
  "Array_prototype_slice", "Array_prototype_some", "Array_prototype_sort",
  "Array_prototype_splice", "Array_prototype_unshift", "Date_now", "Date_parse", "Date_UTC",
  "Date_prototype_getDate", "Date_prototype_getDay", "Date_prototype_getFullYear",
  "Date_prototype_getHours", "Date_prototype_getMinutes", "Date_prototype_getMonth",
  "Date_prototype_getSeconds", "Date_prototype_getTime", "Date_prototype_toISOString",
  "Function_prototype_apply", "Function_prototype_bind", "Function_prototype_call", "JSON_parse",
  "JSON_stringify", "Map_prototype_clear", "Map_prototype_delete", "Map_prototype_entries",
  "Map_prototype_get", "Map_prototype_has", "Map_prototype_keys", "Map_prototype_set",
  "Map_prototype_values", "Set_prototype_add", "Math_abs", "Math_acos", "Math_asin", "Math_atan",
  "Math_atan2", "Math_ceil", "Math_cos", "Math_exp", "Math_floor", "Math_log", "Math_max",
  "Math_min", "Math_pow", "Math_random", "Math_round", "Math_sign", "Math_sin", "Math_sqrt",
  "Math_tan", "Math_trunc", "Number_isFinite", "Number_isInteger", "Number_isNaN",
  "Number_prototype_toFixed", "Number_prototype_toString", "Object_assign", "Object_create",
  "Object_defineProperty", "Object_entries", "Object_freeze", "Object_fromEntries",
  "Object_getOwnPropertyNames", "Object_getPrototypeOf", "Object_keys", "Object_setPrototypeOf",
  "Object_values", "Object_prototype_hasOwnProperty", "Object_prototype_isPrototypeOf",
  "Object_prototype_toString", "Object_prototype_valueOf", "Promise_all", "Promise_allSettled",
  "Promise_any", "Promise_race", "Promise_reject", "Promise_resolve", "Promise_prototype_catch",
  "Promise_prototype_finally", "Promise_prototype_then", "RegExp_prototype_exec",
  "RegExp_prototype_test", "String_fromCharCode", "String_prototype_charAt",
  "String_prototype_charCodeAt", "String_prototype_endsWith", "String_prototype_match",
  "String_prototype_padEnd", "String_prototype_padStart", "String_prototype_repeat",
  "String_prototype_replace", "String_prototype_replaceAll", "String_prototype_split",
  "String_prototype_startsWith", "String_prototype_substring", "String_prototype_toLowerCase",
  "String_prototype_toUpperCase", "String_prototype_trim", "console_error", "console_info",
  "console_log", "console_warn"]

/-- The property that a built-in function is reached through: its name after the last `_`. -/
def property (name : String) : String :=
  String.ofList (((Text.pieces '_' name.toList).getLast?).getD [])

/-- Lets one built-in function flow into its property; counts the edge if it is new. -/
def seedOne (seeded : Nat × FlowGraph) (name : String) : Nat × FlowGraph :=
  let (isNew, graph) := seeded.2.connect (.native name) (.prop (property name))
  (seeded.1 + if isNew then 1 else 0, graph)

/-- Lets every built-in function flow into its property. Returns the number of new edges. -/
def seed (graph : FlowGraph) : Nat × FlowGraph :=
  names.foldl seedOne (0, graph)

end CallFlow.Builtin
