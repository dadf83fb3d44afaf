import ScriptEngine.Calendar.Layout
import ScriptEngine.Library.Dispatch
import ScriptEngine.Registry.Items

namespace ScriptEngine

namespace Standard

def exactly (name : String) (count : Nat) (doc : String) (operation : Operation) : FunctionItem :=
  ⟨name, .exactly count, doc, operation⟩

def consoleFunctions : List FunctionItem :=
  [⟨"print", .atLeast 0,
      "Writes the arguments to standard output; a space separates two adjacent non-strings.",
      .console .print⟩,
    ⟨"println", .atLeast 0,
      "Writes the arguments separated by spaces, followed by a newline.",
      .console .println⟩,
    ⟨"printf", .atLeast 1,
      "Writes the arguments rendered through a format string.",
      .console .printf⟩,
    ⟨"sprintf", .atLeast 1,
      "Returns the arguments rendered through a format string.",
      .console .sprintf⟩]

def conversion (operation : ConversionOperation) (doc : String) : FunctionItem :=
  exactly operation.name 1 doc (.conversion operation)

def conversionFunctions : List FunctionItem :=
  [conversion .type
      "Returns the kind of a value: nil, boolean, number, string, array, hash or function.",
    conversion .str "Returns the printed form of a value as a string.",
    conversion .num "Converts a string or boolean to a number; unparsable strings give nil."]

def collection (operation : CollectionOperation) (count : Nat) (doc : String) : FunctionItem :=
  exactly operation.name count doc (.collection operation)

def callback (operation : CallbackOperation) (arity : Arity) (doc : String) : FunctionItem :=
  ⟨operation.name, arity, doc, .callback operation⟩

def collectionFunctions : List FunctionItem :=
  [collection .len 1 "Returns the length of a string, array or hash.",
    collection .push 2 "Returns a new array with b appended to a.",
    collection .pop 1 "Returns [last element, remaining array]; a is left untouched.",
    collection .shift 1 "Returns [first element, remaining array]; a is left untouched.",
    collection .unshift 2 "Returns a new array with b prepended to a.",
    collection .join 2 "Concatenates the printed elements of a, separated by b.",
    collection .split 2 "Splits a into substrings around b; an empty b splits into characters.",
    collection .index 2 "Returns the position of b in a, or -1 when absent.",
    collection .slice 3 "Returns the elements of a from index b up to, not including, index c.",
    callback .map (.exactly 2) "Returns the results of calling b on each element of a.",
    callback .filter (.exactly 2) "Returns the elements of a for which b returns a truthy value.",
    callback .reduce (.between 2 (some 3))
      "Folds a with the two-argument callable b, starting from c or the first element.",
    collection .reverse 1 "Returns a new array holding the elements of a in reverse order.",
    collection .keys 1 "Returns the keys of a hash in sorted order.",
    collection .values 1 "Returns the values of a hash, ordered by key."]

def unary (function : UnaryFunction) (doc : String) : MemberItem :=
  .function (exactly function.name 1 doc (.math (.unary function)))

def binary (function : BinaryFunction) (doc : String) : MemberItem :=
  .function (exactly function.name 2 doc (.math (.binary function)))

/-- The least positive number. -/
def epsilon : Number := ⟨1⟩

def pi : Number := 3.141592653589793

def euler : Number := 2.718281828459045

def mathMembers : List MemberItem :=
  [unary .abs "Absolute value of x.",
    unary .acos "Arccosine of x.",
    unary .acosh "Inverse hyperbolic cosine of x.",
    unary .asin "Arcsine of x.",
    unary .asinh "Inverse hyperbolic sine of x.",
    unary .atan "Arctangent of x.",
    unary .atanh "Inverse hyperbolic tangent of x.",
    unary .cbrt "Cube root of x.",
    unary .ceil "Smallest integer not below x.",
    unary .cos "Cosine of x.",
    unary .cosh "Hyperbolic cosine of x.",
    unary .exp "e raised to x.",
    unary .exp2 "2 raised to x.",
    unary .floor "Largest integer not above x.",
    unary .log "Natural logarithm of x.",
    unary .log10 "Base 10 logarithm of x.",
    unary .log2 "Base 2 logarithm of x.",
    unary .round "x rounded to the nearest integer, halves away from zero.",
    unary .sin "Sine of x.",
    unary .sinh "Hyperbolic sine of x.",
    unary .sqrt "Square root of x.",
    unary .tan "Tangent of x.",
    unary .tanh "Hyperbolic tangent of x.",
    unary .trunc "Integer part of x.",
    unary .pow10 "10 raised to n.",
    binary .atan2 "Arctangent of y/x using the signs of both.",
    binary .copysign "x with the sign of y.",
    binary .hypot "Square root of x*x + y*y.",
    binary .max "Larger of x and y.",
    binary .min "Smaller of x and y.",
    binary .mod "Floating point remainder of x/y, signed like x.",
    binary .pow "x raised to y.",
    binary .remainder "IEEE 754 remainder of x/y.",
    .function (exactly "inf" 1 "Positive infinity when sign >= 0, negative infinity otherwise."
      (.math .inf)),
    .function (exactly "nan" 0 "A quiet NaN." (.math .nan)),
    .function (exactly "signbit" 1 "Whether x is negative or negative zero." (.math .signbit)),
    .constant "epsilon" (.number epsilon) "Smallest positive value a number can hold.",
    .constant "pi" (.number pi) "Ratio of a circle's circumference to its diameter.",
    .constant "e" (.number euler) "Base of the natural logarithm."]

def jsonMembers : List MemberItem :=
  [.function (exactly "to" 1 "Encodes a value as a JSON string; hash keys become strings."
      (.json .encode)),
    .function (exactly "from" 1 "Decodes a JSON string into arrays, hashes and scalars."
      (.json .decode)),
    .function (exactly "valid" 1 "Reports whether a string holds well-formed JSON."
      (.json .validate))]

def file (name : String) (count : Nat) (doc : String) (operation : FileOperation) : MemberItem :=
  .function (exactly name count doc (.file operation))

def fileMembers : List MemberItem :=
  [file "persist" 2
      "Returns the JSON stored at path, or stores value there first if the file is missing."
      .persist,
    file "read" 1 "Reads a whole file as a string." .read,
    file "write" 2 "Replaces the contents of a file with the printed form of a value." .write,
    file "exists" 1 "Whether a file or directory exists at path." .present,
    file "remove" 1 "Deletes a file or an empty directory." .remove,
    file "rename" 2 "Moves a file from one path to another." .rename,
    file "stat" 1 "Name, size, mode flags and modification time of a path." .stat]

def system (name : String) (count : Nat) (doc : String) (operation : SystemOperation) :
    MemberItem :=
  .function (exactly name count doc (.system operation))

def systemMembers (arguments : List String) : List MemberItem :=
  [system "args" 0 "The script path followed by its command line arguments." (.args arguments),
    system "env" 1 "The value of an environment variable, or \"\" when unset." .env,
    system "getwd" 0 "The current working directory." .getwd,
    system "chdir" 1 "Changes the current working directory." .chdir,
    system "mkdir" 1 "Creates a directory." .mkdir,
    system "mkdir_all" 1 "Creates a directory along with any missing parents." .mkdirAll,
    system "cp" 2 "Copies a file's contents to a new path." .cp,
    system "mv" 2 "Moves a file or directory." .mv,
    system "exit" 1 "Stops the script and ends the process with the given status." .exit,
    .constant "os" (.string Surroundings.hostName) "Name of the host operating system."]

def time (name : String) (arity : Arity) (doc : String) (operation : TimeOperation) : MemberItem :=
  .function ⟨name, arity, doc, .time operation⟩

/-- A constant for each month, from one on. -/
def monthMembers : List MemberItem :=
  Calendar.monthNames.zipIdx.map fun (name, index) =>
    .constant name (.ofNat (index + 1)) "Month number."

def timeMembers : List MemberItem :=
  [time "now" (.exactly 0) "The current local time as a time hash." .now,
    time "unix" (.exactly 0) "Seconds elapsed since the Unix epoch." .unix,
    time "from_unix" (.exactly 1)
      "The UTC time hash for a count of seconds since the Unix epoch." .fromUnix,
    time "from" (.between 1 (some 7))
      "Builds a UTC time hash from year[, month[, day[, hour, minute, second[, nsec]]]]." .build,
    time "diff" (.exactly 2)
      "Elapsed time from a to b as whole hours, minutes, seconds, mills and nsec." .diff,
    time "format" (.exactly 2)
      "Renders a time hash through a strftime layout such as \"%Y-%m-%d\"." .format,
    time "str" (.exactly 1) "Renders a time hash in a fixed, sortable layout." .str,
    time "sleep" (.exactly 1) "Pauses the script for the given number of milliseconds." .sleep] ++
  monthMembers

def modules (arguments : List String) : List LibraryItem :=
  [.module "math" "Mathematical functions and constants." mathMembers,
    .module "json" "JSON encoding and decoding." jsonMembers,
    .module "file" "File system helpers." fileMembers,
    .module "os" "Operating system access." (systemMembers arguments),
    .module "time" "Wall clock time and calendar helpers." timeMembers]

/-- The whole standard library, for a script with the given command line arguments. -/
def library (arguments : List String) : List LibraryItem :=
  (consoleFunctions ++ conversionFunctions ++ collectionFunctions).map .function ++
    modules arguments

end Standard

/-- The registry of the standard library, with its functions in the heap. -/
def Registry.standard (arguments : List String) (heap : Heap) : Registry × Heap :=
  Registry.empty.registerItems heap (Standard.library arguments)

end ScriptEngine
