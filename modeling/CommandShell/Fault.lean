import CommandShell.Value.Text

/-!
# Faults

Why an operation fails.  A fault is a cause; its wording is in `Fault.message`.

## Main definitions

* `ExitCode`: the code that a command exits with.
* `FileError`: what the operating system refuses.
* `Fault`: the causes.
* `Fault.message`: what is reported for a cause.
* `Fault.isSystem`: the causes that come from the operating system.
-/

namespace CommandShell

/-- The code that a command exits with: as a rule a whole number, and the absent value as long as
none is set. -/
abbrev ExitCode := Value

/-- Whether a code stands for success: whatever equals zero does, and no code at all. -/
def ExitCode.succeeded (code : ExitCode) : Bool :=
  code.isNull || code.same (.int 0)

/-- What the operating system refuses. -/
inductive FileError where
  /-- There is nothing at the path. -/
  | missing
  /-- There is something at the path already. -/
  | present
  /-- A part of the path that is not the last is not a directory. -/
  | notDirectory
  /-- A directory stands where a file is needed. -/
  | isDirectory
  /-- A name or the path is too long. -/
  | nameTooLong
deriving DecidableEq, Repr

/-- The number and the wording of an error of the operating system. -/
def FileError.text : FileError → String
  | missing => "[Errno 2] No such file or directory"
  | present => "[Errno 17] File exists"
  | notDirectory => "[Errno 20] Not a directory"
  | isDirectory => "[Errno 21] Is a directory"
  | nameTooLong => "[Errno 36] File name too long"

/-- Why some bytes are not the UTF-8 form of a text. -/
structure DecodeError where
  /-- The bytes that cannot be read. -/
  bytes : List Nat
  /-- The position of the first of them. -/
  position : Nat
  /-- What is wrong with them. -/
  reason : String

/-- The bytes that cannot be read as they are reported: a single byte is given, of several only the
positions. -/
def DecodeError.place (e : DecodeError) : String :=
  match e.bytes with
  | [b] => s!"byte 0x{String.ofList (Chars.hex 2 b)} in position {e.position}"
  | bs => s!"bytes in position {e.position}-{e.position + bs.length - 1}"

/-- A decoding error as it is reported. -/
def DecodeError.message (e : DecodeError) : String :=
  s!"'utf-8' codec can't decode {e.place}: {e.reason}"

/-- Why an operation fails. -/
inductive Fault where
  /-- A general failure. -/
  | failure (message : String)
  /-- A value that cannot be used. -/
  | badValue (message : String)
  /-- A key that a map does not have. -/
  | missingKey (key : Value)
  /-- A failure of the operating system with a wording of its own. -/
  | system (message : String)
  /-- A failure of the shell. -/
  | shell (message : String)
  /-- The operation was cancelled. -/
  | cancelled (message : String)
  /-- No service is registered under a token. -/
  | noService (token : String)
  /-- The command exits. -/
  | exited (code : ExitCode)
  /-- The operating system refuses an access to a path. -/
  | file (error : FileError) (path : String)
  /-- A file is needed and there is a directory. -/
  | directoryTarget (path : String)
  /-- A file that is to be created exists. -/
  | alreadyExists (path : String)
  /-- A path holds the character NUL. -/
  | nullInPath
  /-- The home directory of a user is not known. -/
  | noHome
  /-- The bytes of a file are not UTF-8. -/
  | undecodable (error : DecodeError)
  /-- The file of a database cannot be opened. -/
  | database
  /-- The file of a database holds something else. -/
  | notDatabase
  /-- A value of a kind that cannot be a path. -/
  | notPath (kind : String)
  /-- A value of a kind that JSON cannot express. -/
  | notEncodable (kind : String)
  /-- A key of a kind that JSON cannot express as one. -/
  | notEncodableKey (kind : String)
  /-- A whole number has too many digits to be read. -/
  | tooManyDigits (count : Nat)
  /-- Lists and maps of a JSON text are nested too deeply. -/
  | tooDeep (kind : String)
  /-- Lists and maps are nested too deeply to be copied. -/
  | tooNested
  /-- A value that is not a map is used as one. -/
  | notMapping (kind : String)
  /-- A value does not have a member. -/
  | noMember (kind member : String)
  /-- A value has no items to go through. -/
  | notIterable (kind : String)
  /-- A value cannot be asked what it contains. -/
  | notContainer (kind : String)
  /-- A value has no length. -/
  | noLength (kind : String)
  /-- An item of a list that is to become a map has no parts. -/
  | notPair (index : Nat)
  /-- An item of a list that is to become a map does not have two parts. -/
  | pairLength (index length : Nat)
  /-- A value of a kind that cannot be a key. -/
  | unhashable (kind : String)
  /-- The items of a value cannot be set. -/
  | noAssignment (kind : String)
  /-- A list is asked for a position that is not a number. -/
  | badPosition (kind : String)
  /-- A text is asked for a position that is not a number. -/
  | badTextPosition (kind : String)
  /-- A value has no items to be looked up. -/
  | noLookup (kind : String)
  /-- A position outside a list is set. -/
  | positionRange
  /-- A position outside a list is read. -/
  | positionMissing
  /-- A position outside a text is read. -/
  | textPositionMissing
  /-- A position is beyond what any list can have. -/
  | positionTooLarge
  /-- A text is asked whether it contains a value that is no text. -/
  | notPart (kind : String)
  /-- A number cannot be added to a value. -/
  | notAddable (kind : String)
  /-- A value of one kind cannot be compared with one of another kind. -/
  | notOrdered (kind other : String)
  /-- A text is completed at a cursor beyond its end. -/
  | cursorBeyondText (cursor : Int) (length : Nat)
  /-- A value that is no text is to go on after an animated text. -/
  | notAppendable
  /-- Work that somebody waits for already, or that has ended, is started again. -/
  | workTaken
  /-- An argument of an operation is given in two ways. -/
  | givenTwice (operation argument : String)
  /-- The named arguments of an operation are not a map. -/
  | notArguments (operation kind : String)
  /-- The class of settings is set to a value. -/
  | notClass (kind : String)
  /-- The members of settings are set to a value that is no map. -/
  | notMembers (kind : String)
  /-- A member cannot be set. -/
  | notWritable (owner member : String)

namespace Fault

/-- What is reported for a fault. -/
def message : Fault → String
  | failure m => m
  | badValue m => m
  | missingKey k => k.written
  | system m => m
  | shell m => m
  | cancelled m => m
  | noService token => "Service not registered: " ++ token
  | exited code => "Process exited with code " ++ Value.shown code
  | file e path => e.text ++ ": " ++ quoted path
  | directoryTarget path => path ++ " is a directory"
  | alreadyExists path => path ++ " already exists"
  | nullInPath => "embedded null byte"
  | noHome => "Could not determine home directory."
  | undecodable e => e.message
  | database => "unable to open database file"
  | notDatabase => "file is not a database"
  | notPath kind => s!"expected str, bytes or os.PathLike object, not {kind}"
  | notEncodable kind => s!"Object of type {kind} is not JSON serializable"
  | notEncodableKey kind => s!"keys must be str, int, float, bool or None, not {kind}"
  | tooManyDigits n =>
    s!"Exceeds the limit ({maxDigitsShown} digits) for integer string conversion: value has {n} " ++
      "digits; use sys.set_int_max_str_digits() to increase the limit"
  | tooDeep kind =>
    s!"maximum recursion depth exceeded while decoding a JSON {kind} from a unicode string"
  | tooNested => "maximum recursion depth exceeded"
  | notMapping kind => s!"'{kind}' object is not a mapping"
  | noMember kind member => s!"'{kind}' object has no attribute '{member}'"
  | notIterable kind => s!"'{kind}' object is not iterable"
  | notContainer kind => s!"argument of type '{kind}' is not iterable"
  | noLength kind => s!"object of type '{kind}' has no len()"
  | notPair index => s!"cannot convert dictionary update sequence element #{index} to a sequence"
  | pairLength index length =>
    s!"dictionary update sequence element #{index} has length {length}; 2 is required"
  | unhashable kind => s!"unhashable type: '{kind}'"
  | noAssignment kind => s!"'{kind}' object does not support item assignment"
  | badPosition kind => s!"list indices must be integers or slices, not {kind}"
  | badTextPosition kind => s!"string indices must be integers, not '{kind}'"
  | noLookup kind => s!"'{kind}' object is not subscriptable"
  | positionRange => "list assignment index out of range"
  | positionMissing => "list index out of range"
  | textPositionMissing => "string index out of range"
  | positionTooLarge => "cannot fit 'int' into an index-sized integer"
  | notPart kind => s!"'in <string>' requires string as left operand, not {kind}"
  | notAddable kind =>
    if kind = "str" || kind = "list" then
      s!"can only concatenate {kind} (not \"int\") to {kind}"
    else s!"unsupported operand type(s) for +: '{kind}' and 'int'"
  | notOrdered kind other =>
    s!"'<' not supported between instances of '{kind}' and '{other}'"
  | cursorBeyondText cursor length => s!"cursor_position={cursor}, len_text={length}"
  | notAppendable => "Only str or Text can be appended to Text"
  | workTaken => "cannot reuse already awaited coroutine"
  | givenTwice operation argument =>
    s!"{operation}() got multiple values for argument '{argument}'"
  | notArguments operation kind =>
    s!"{operation}() argument after ** must be a mapping, not {kind}"
  | notClass kind => s!"__class__ must be set to a class, not '{kind}' object"
  | notMembers kind => s!"__dict__ must be set to a dictionary, not a '{kind}'"
  | notWritable owner member =>
    s!"attribute '{member}' of '{owner}' objects is not writable"
where
  /-- The limit that `tooManyDigits` reports. -/
  maxDigitsShown : Nat := 4300

/-- Whether a fault comes from the operating system. -/
def isSystem : Fault → Bool
  | system _ | file _ _ | directoryTarget _ | alreadyExists _ => true
  | _ => false

end Fault

end CommandShell
