import KotlinTree.Types.Stub

/-!
The classes and functions that every program sees, and the packages whose members need no import.
-/

namespace KotlinTree.Builtins

/-- Classes of the language's library and of the platform. -/
def classes : List ClassStub := [
  { name := "kotlin.Any",
    members := [
      { name := "toString", type := some "kotlin.String" },
      { name := "hashCode", type := some "kotlin.Int" },
      { name := "equals", type := some "kotlin.Boolean", parameters := ["kotlin.Any?"] }] },
  { name := "kotlin.Nothing" },
  { name := "kotlin.Unit", kind := .object },
  { name := "kotlin.Comparable", kind := .interface },
  { name := "kotlin.CharSequence", kind := .interface,
    members := [
      { name := "length", kind := .field, type := some "kotlin.Int" },
      { name := "get", type := some "kotlin.Char", parameters := ["kotlin.Int"] }] },
  { name := "kotlin.Number",
    members := [
      { name := "toInt", type := some "kotlin.Int" },
      { name := "toLong", type := some "kotlin.Long" },
      { name := "toDouble", type := some "kotlin.Double" }] },
  { name := "kotlin.Int", supertypes := ["kotlin.Number", "kotlin.Comparable"],
    members := [
      { name := "plus", type := some "kotlin.Int", parameters := ["kotlin.Int"] },
      { name := "minus", type := some "kotlin.Int", parameters := ["kotlin.Int"] },
      { name := "times", type := some "kotlin.Int", parameters := ["kotlin.Int"] },
      { name := "div", type := some "kotlin.Int", parameters := ["kotlin.Int"] },
      { name := "rem", type := some "kotlin.Int", parameters := ["kotlin.Int"] },
      { name := "compareTo", type := some "kotlin.Int", parameters := ["kotlin.Int"] },
      { name := "inc", type := some "kotlin.Int" },
      { name := "dec", type := some "kotlin.Int" },
      { name := "toChar", type := some "kotlin.Char" },
      { name := "rangeTo", type := some "kotlin.ranges.IntRange", parameters := ["kotlin.Int"] }],
    companion := some { members := [
      { name := "MIN_VALUE", kind := .field, type := some "kotlin.Int" },
      { name := "MAX_VALUE", kind := .field, type := some "kotlin.Int" },
      { name := "SIZE_BYTES", kind := .field, type := some "kotlin.Int" },
      { name := "SIZE_BITS", kind := .field, type := some "kotlin.Int" }] } },
  { name := "kotlin.Long", supertypes := ["kotlin.Number", "kotlin.Comparable"],
    members := [
      { name := "plus", type := some "kotlin.Long", parameters := ["kotlin.Long"] },
      { name := "minus", type := some "kotlin.Long", parameters := ["kotlin.Long"] },
      { name := "times", type := some "kotlin.Long", parameters := ["kotlin.Long"] },
      { name := "compareTo", type := some "kotlin.Int", parameters := ["kotlin.Long"] }],
    companion := some { members := [
      { name := "MIN_VALUE", kind := .field, type := some "kotlin.Long" },
      { name := "MAX_VALUE", kind := .field, type := some "kotlin.Long" }] } },
  { name := "kotlin.Double", supertypes := ["kotlin.Number", "kotlin.Comparable"],
    members := [
      { name := "plus", type := some "kotlin.Double", parameters := ["kotlin.Double"] },
      { name := "minus", type := some "kotlin.Double", parameters := ["kotlin.Double"] },
      { name := "times", type := some "kotlin.Double", parameters := ["kotlin.Double"] },
      { name := "div", type := some "kotlin.Double", parameters := ["kotlin.Double"] },
      { name := "isNaN", type := some "kotlin.Boolean" }],
    companion := some { members := [
      { name := "MIN_VALUE", kind := .field, type := some "kotlin.Double" },
      { name := "MAX_VALUE", kind := .field, type := some "kotlin.Double" },
      { name := "NaN", kind := .field, type := some "kotlin.Double" },
      { name := "POSITIVE_INFINITY", kind := .field, type := some "kotlin.Double" }] } },
  { name := "kotlin.Float", supertypes := ["kotlin.Number", "kotlin.Comparable"],
    companion := some { members := [
      { name := "MIN_VALUE", kind := .field, type := some "kotlin.Float" },
      { name := "MAX_VALUE", kind := .field, type := some "kotlin.Float" }] } },
  { name := "kotlin.Byte", supertypes := ["kotlin.Number", "kotlin.Comparable"],
    companion := some { members := [
      { name := "MIN_VALUE", kind := .field, type := some "kotlin.Byte" },
      { name := "MAX_VALUE", kind := .field, type := some "kotlin.Byte" }] } },
  { name := "kotlin.Short", supertypes := ["kotlin.Number", "kotlin.Comparable"],
    companion := some { members := [
      { name := "MIN_VALUE", kind := .field, type := some "kotlin.Short" },
      { name := "MAX_VALUE", kind := .field, type := some "kotlin.Short" }] } },
  { name := "kotlin.Boolean", supertypes := ["kotlin.Comparable"],
    members := [
      { name := "not", type := some "kotlin.Boolean" },
      { name := "and", type := some "kotlin.Boolean", parameters := ["kotlin.Boolean"] },
      { name := "or", type := some "kotlin.Boolean", parameters := ["kotlin.Boolean"] }] },
  { name := "kotlin.Char", supertypes := ["kotlin.Comparable"],
    members := [
      { name := "code", kind := .field, type := some "kotlin.Int" }],
    companion := some { members := [
      { name := "MIN_VALUE", kind := .field, type := some "kotlin.Char" },
      { name := "MAX_VALUE", kind := .field, type := some "kotlin.Char" }] } },
  { name := "kotlin.String", supertypes := ["kotlin.Comparable", "kotlin.CharSequence"],
    members := [
      { name := "length", kind := .field, type := some "kotlin.Int" },
      { name := "get", type := some "kotlin.Char", parameters := ["kotlin.Int"] },
      { name := "plus", type := some "kotlin.String", parameters := ["kotlin.Any?"] },
      { name := "compareTo", type := some "kotlin.Int", parameters := ["kotlin.String"] }],
    companion := some { members := [
] } },
  { name := "kotlin.ByteArray",
    members := [
      { name := "size", kind := .field, type := some "kotlin.Int" },
      { name := "get", type := some "kotlin.Byte", parameters := ["kotlin.Int"] }] },
  { name := "kotlin.Array",
    members := [
      { name := "size", kind := .field, type := some "kotlin.Int" },
      { name := "get", type := some "kotlin.Any?", parameters := ["kotlin.Int"] }] },
  { name := "kotlin.Pair",
    members := [
      { name := "first", kind := .field, type := some "kotlin.Any?" },
      { name := "second", kind := .field, type := some "kotlin.Any?" }] },
  { name := "kotlin.Throwable",
    members := [
      { name := "message", kind := .field, type := some "kotlin.String?" },
      { name := "cause", kind := .field, type := some "kotlin.Throwable?" }] },
  { name := "kotlin.Exception", supertypes := ["kotlin.Throwable"] },
  { name := "kotlin.ranges.IntRange",
    members := [
      { name := "first", kind := .field, type := some "kotlin.Int" },
      { name := "last", kind := .field, type := some "kotlin.Int" }] },
  { name := "kotlin.text.Regex",
    members := [
      { name := "pattern", kind := .field, type := some "kotlin.String" },
      { name := "matches", type := some "kotlin.Boolean", parameters := ["kotlin.CharSequence"] }] },
  { name := "kotlin.collections.Collection", kind := .interface,
    members := [
      { name := "size", kind := .field, type := some "kotlin.Int" },
      { name := "isEmpty", type := some "kotlin.Boolean" },
      { name := "contains", type := some "kotlin.Boolean", parameters := ["kotlin.Any?"] }] },
  { name := "kotlin.collections.List", kind := .interface,
    supertypes := ["kotlin.collections.Collection"],
    members := [
      { name := "get", type := some "kotlin.Any?", parameters := ["kotlin.Int"] },
      { name := "indexOf", type := some "kotlin.Int", parameters := ["kotlin.Any?"] }] },
  { name := "kotlin.collections.MutableList", kind := .interface,
    supertypes := ["kotlin.collections.List"],
    members := [
      { name := "add", type := some "kotlin.Boolean", parameters := ["kotlin.Any?"] },
      { name := "clear", type := some "kotlin.Unit" }] },
  { name := "kotlin.collections.Set", kind := .interface,
    supertypes := ["kotlin.collections.Collection"] },
  { name := "kotlin.collections.Map", kind := .interface,
    members := [
      { name := "size", kind := .field, type := some "kotlin.Int" },
      { name := "keys", kind := .field, type := some "kotlin.collections.Set" },
      { name := "get", type := some "kotlin.Any?", parameters := ["kotlin.Any?"] }] },
  { name := "java.lang.Object", origin := some .platform,
    members := [
      { name := "toString", type := some "kotlin.String" },
      { name := "hashCode", type := some "kotlin.Int", nullability := some .notNull },
      { name := "equals", type := some "kotlin.Boolean", parameters := ["kotlin.Any?"],
        nullability := some .notNull },
      { name := "getClass", type := some "java.lang.Class" }] },
  { name := "java.lang.Class", origin := some .platform, supertypes := ["java.lang.Object"],
    members := [
      { name := "getName", type := some "kotlin.String" },
      { name := "getSimpleName", type := some "kotlin.String" }] },
  { name := "java.lang.System", origin := some .platform, supertypes := ["java.lang.Object"],
    members := [
      { name := "out", kind := .field, type := some "java.io.PrintStream", isStatic := true },
      { name := "err", kind := .field, type := some "java.io.PrintStream", isStatic := true },
      { name := "currentTimeMillis", type := some "kotlin.Long", isStatic := true,
        nullability := some .notNull },
      { name := "getProperty", type := some "kotlin.String", parameters := ["kotlin.String"],
        isStatic := true },
      { name := "lineSeparator", type := some "kotlin.String", isStatic := true }] },
  { name := "java.lang.Thread", origin := some .platform, supertypes := ["java.lang.Object"],
    members := [
      { name := "currentThread", type := some "java.lang.Thread", isStatic := true },
      { name := "getName", type := some "kotlin.String" },
      { name := "setName", type := some "kotlin.Unit", parameters := ["kotlin.String"] },
      { name := "getId", type := some "kotlin.Long", nullability := some .notNull },
      { name := "isDaemon", type := some "kotlin.Boolean", nullability := some .notNull }] },
  { name := "java.lang.StringBuilder", origin := some .platform,
    supertypes := ["java.lang.Object", "kotlin.CharSequence"],
    members := [
      { name := "append", type := some "java.lang.StringBuilder", parameters := ["kotlin.Any?"] },
      { name := "reverse", type := some "java.lang.StringBuilder" }] },
  { name := "java.lang.Math", origin := some .platform, supertypes := ["java.lang.Object"],
    members := [
      { name := "PI", kind := .field, type := some "kotlin.Double", isStatic := true,
        nullability := some .notNull },
      { name := "abs", type := some "kotlin.Int", parameters := ["kotlin.Int"], isStatic := true,
        nullability := some .notNull },
      { name := "max", type := some "kotlin.Int", parameters := ["kotlin.Int", "kotlin.Int"],
        isStatic := true, nullability := some .notNull }] },
  { name := "java.lang.Integer", origin := some .platform, supertypes := ["kotlin.Number"],
    members := [
      { name := "MAX_VALUE", kind := .field, type := some "kotlin.Int", isStatic := true,
        nullability := some .notNull },
      { name := "parseInt", type := some "kotlin.Int", parameters := ["kotlin.String"],
        isStatic := true, nullability := some .notNull },
      { name := "valueOf", type := some "java.lang.Integer", parameters := ["kotlin.Int"],
        isStatic := true }] },
  { name := "java.io.PrintStream", origin := some .platform, supertypes := ["java.lang.Object"],
    members := [
      { name := "println", type := some "kotlin.Unit", parameters := ["kotlin.Any?"],
        nullability := some .notNull },
      { name := "print", type := some "kotlin.Unit", parameters := ["kotlin.Any?"],
        nullability := some .notNull }] },
  { name := "java.io.File", origin := some .platform, supertypes := ["java.lang.Object"],
    members := [
      { name := "getName", type := some "kotlin.String" },
      { name := "getPath", type := some "kotlin.String" },
      { name := "getParentFile", type := some "java.io.File" },
      { name := "exists", type := some "kotlin.Boolean", nullability := some .notNull },
      { name := "isDirectory", type := some "kotlin.Boolean", nullability := some .notNull }] },
  { name := "java.nio.Buffer", origin := some .platform, supertypes := ["java.lang.Object"],
    members := [
      { name := "position", type := some "kotlin.Int", nullability := some .notNull },
      { name := "limit", type := some "kotlin.Int", nullability := some .notNull },
      { name := "remaining", type := some "kotlin.Int", nullability := some .notNull },
      { name := "capacity", type := some "kotlin.Int", nullability := some .notNull },
      { name := "hasRemaining", type := some "kotlin.Boolean", nullability := some .notNull }] },
  { name := "java.nio.ByteBuffer", origin := some .platform, supertypes := ["java.nio.Buffer"],
    members := [
      { name := "wrap", type := some "java.nio.ByteBuffer", parameters := ["kotlin.ByteArray"],
        isStatic := true },
      { name := "allocate", type := some "java.nio.ByteBuffer", parameters := ["kotlin.Int"],
        isStatic := true },
      { name := "get", type := some "kotlin.Byte", nullability := some .notNull },
      { name := "put", type := some "java.nio.ByteBuffer", parameters := ["kotlin.Byte"] },
      { name := "array", type := some "kotlin.ByteArray" }] },
  { name := "java.nio.charset.Charset", origin := some .platform,
    supertypes := ["java.lang.Object"],
    members := [
      { name := "forName", type := some "java.nio.charset.Charset",
        parameters := ["kotlin.String"], isStatic := true },
      { name := "name", type := some "kotlin.String" }] },
  { name := "java.nio.charset.StandardCharsets", origin := some .platform,
    supertypes := ["java.lang.Object"],
    members := [
      { name := "UTF_8", kind := .field, type := some "java.nio.charset.Charset",
        isStatic := true }] },
  { name := "java.util.regex.Pattern", origin := some .platform,
    supertypes := ["java.lang.Object"],
    members := [
      { name := "CASE_INSENSITIVE", kind := .field, type := some "kotlin.Int", isStatic := true,
        nullability := some .notNull },
      { name := "compile", type := some "java.util.regex.Pattern",
        parameters := ["kotlin.String"], isStatic := true },
      { name := "compile", type := some "java.util.regex.Pattern",
        parameters := ["kotlin.String", "kotlin.Int"], isStatic := true },
      { name := "quote", type := some "kotlin.String", parameters := ["kotlin.String"],
        isStatic := true },
      { name := "matcher", type := some "java.util.regex.Matcher",
        parameters := ["kotlin.CharSequence"] },
      { name := "pattern", type := some "kotlin.String" },
      { name := "flags", type := some "kotlin.Int", nullability := some .notNull }] },
  { name := "java.util.regex.Matcher", origin := some .platform,
    supertypes := ["java.lang.Object"],
    members := [
      { name := "matches", type := some "kotlin.Boolean", nullability := some .notNull },
      { name := "find", type := some "kotlin.Boolean", nullability := some .notNull },
      { name := "group", type := some "kotlin.String" },
      { name := "group", type := some "kotlin.String", parameters := ["kotlin.Int"] },
      { name := "groupCount", type := some "kotlin.Int", nullability := some .notNull }] }]

/-- Functions and properties of the library's files. -/
def functions : List FunctionStub := [
  { name := "toByteArray", facade := "kotlin.text.StringsKt", receiver := some "kotlin.String",
    type := some "kotlin.ByteArray" },
  { name := "toByteArray", facade := "kotlin.text.StringsKt", receiver := some "kotlin.String",
    type := some "kotlin.ByteArray", parameters := ["java.nio.charset.Charset"] },
  { name := "trimIndent", facade := "kotlin.text.StringsKt", receiver := some "kotlin.String",
    type := some "kotlin.String" },
  { name := "trim", facade := "kotlin.text.StringsKt", receiver := some "kotlin.String",
    type := some "kotlin.String" },
  { name := "uppercase", facade := "kotlin.text.StringsKt", receiver := some "kotlin.String",
    type := some "kotlin.String" },
  { name := "lowercase", facade := "kotlin.text.StringsKt", receiver := some "kotlin.String",
    type := some "kotlin.String" },
  { name := "toInt", facade := "kotlin.text.StringsKt", receiver := some "kotlin.String",
    type := some "kotlin.Int" },
  { name := "toIntOrNull", facade := "kotlin.text.StringsKt", receiver := some "kotlin.String",
    type := some "kotlin.Int?" },
  { name := "toRegex", facade := "kotlin.text.StringsKt", receiver := some "kotlin.String",
    type := some "kotlin.text.Regex" },
  { name := "repeat", facade := "kotlin.text.StringsKt", receiver := some "kotlin.CharSequence",
    type := some "kotlin.String", parameters := ["kotlin.Int"] },
  { name := "isBlank", facade := "kotlin.text.StringsKt", receiver := some "kotlin.CharSequence",
    type := some "kotlin.Boolean" },
  { name := "lines", facade := "kotlin.text.StringsKt", receiver := some "kotlin.CharSequence",
    type := some "kotlin.collections.List" },
  { name := "lastIndex", facade := "kotlin.text.StringsKt",
    receiver := some "kotlin.CharSequence", kind := .field, type := some "kotlin.Int" },
  { name := "listOf", facade := "kotlin.collections.CollectionsKt",
    type := some "kotlin.collections.List", parameters := ["kotlin.Any?"], isVararg := true },
  { name := "mutableListOf", facade := "kotlin.collections.CollectionsKt",
    type := some "kotlin.collections.MutableList", parameters := ["kotlin.Any?"],
    isVararg := true },
  { name := "emptyList", facade := "kotlin.collections.CollectionsKt",
    type := some "kotlin.collections.List" },
  { name := "first", facade := "kotlin.collections.CollectionsKt",
    receiver := some "kotlin.collections.List", type := some "kotlin.Any?" },
  { name := "lastIndex", facade := "kotlin.collections.CollectionsKt",
    receiver := some "kotlin.collections.List", kind := .field, type := some "kotlin.Int" },
  { name := "mapOf", facade := "kotlin.collections.MapsKt", type := some "kotlin.collections.Map",
    parameters := ["kotlin.Pair"], isVararg := true },
  { name := "emptyMap", facade := "kotlin.collections.MapsKt",
    type := some "kotlin.collections.Map" },
  { name := "to", facade := "kotlin.TuplesKt", receiver := some "kotlin.Any?",
    type := some "kotlin.Pair", parameters := ["kotlin.Any?"] },
  { name := "require", facade := "kotlin.PreconditionsKt", type := some "kotlin.Unit",
    parameters := ["kotlin.Boolean"] },
  { name := "error", facade := "kotlin.PreconditionsKt", type := some "kotlin.Nothing",
    parameters := ["kotlin.Any"] },
  { name := "TODO", facade := "kotlin.StandardKt", type := some "kotlin.Nothing" },
  { name := "println", facade := "kotlin.io.ConsoleKt", type := some "kotlin.Unit" },
  { name := "println", facade := "kotlin.io.ConsoleKt", type := some "kotlin.Unit",
    parameters := ["kotlin.Any?"] },
  { name := "print", facade := "kotlin.io.ConsoleKt", type := some "kotlin.Unit",
    parameters := ["kotlin.Any?"] },
  { name := "readLine", facade := "kotlin.io.ConsoleKt", type := some "kotlin.String?" },
  { name := "readText", facade := "kotlin.io.FilesKt", receiver := some "java.io.File",
    type := some "kotlin.String" }]

/-- All that is built in. -/
def stub : StubFile := { origin := some .library, classes, functions }

/-- Packages whose members are visible without an import, in the order of their search. -/
def defaultImports : List String :=
  ["kotlin", "kotlin.annotation", "kotlin.collections", "kotlin.comparisons", "kotlin.io",
    "kotlin.ranges", "kotlin.sequences", "kotlin.text", "java.lang"]

/-- What is declared before anything else. -/
def environment : Environment := (({} : Environment).addStub stub).1

end KotlinTree.Builtins
