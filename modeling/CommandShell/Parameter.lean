import CommandShell.Fault

/-!
# Parameters

The flags that a processor declares, and how a value given for one is judged.

## Main definitions

* `Verdict`: whether something is accepted, and why not.
* `Check`: how the values of a parameter are judged.
* `Parameter`: a declared flag.
-/

namespace CommandShell

/-- The outcome of a check. -/
inductive Verdict where
  /-- The value can be used. -/
  | accepted
  /-- The value cannot be used; a reason may be given. -/
  | rejected (reason : Option String)
deriving DecidableEq, Repr

/-- How the values given for a parameter are judged. -/
inductive Check where
  /-- The value is a whole number or a truth value above zero. -/
  | positive (reason : Option String)
  /-- The value is a text. -/
  | isText (reason : Option String)
  /-- The value is equal to one of a list. -/
  | memberOf (reason : Option String) (choices : List Value)
  /-- No value passes. -/
  | never (reason : Option String)
  /-- The check itself fails. -/
  | fails (fault : Fault)

/-- Whether a value is a whole number or a truth value above zero. -/
def Value.isPositive : Value → Bool
  | .int n => 0 < n
  | .bool b => b
  | _ => false

/-- The outcome of a check on a value. -/
def Check.judge (c : Check) (v : Value) : Except Fault Verdict :=
  let require (ok : Bool) (reason : Option String) : Except Fault Verdict :=
    .ok (if ok then .accepted else .rejected reason)
  match c with
  | positive reason => require v.isPositive reason
  | isText reason => require v.text?.isSome reason
  | memberOf reason choices => require (v.oneOf choices) reason
  | never reason => require false reason
  | fails fault => .error fault

/-- A flag that a processor declares. -/
structure Parameter where
  /-- The name without dashes. -/
  name : String
  /-- What the flag is for. -/
  description : String := ""
  /-- Whether it must be given. -/
  required : Bool := false
  /-- The kind of its values; only `array` and `boolean` have rules of their own. -/
  type : String := "string"
  /-- Its other names, unless they are left open. -/
  aliases : Option (List String) := some []
  /-- How its values are judged. -/
  check : Option Check := none

namespace Parameter

/-- The other names of a parameter; none if they are left open. -/
def otherNames (p : Parameter) : List String :=
  p.aliases.getD []

/-- Whether a flag with a given name belongs to a parameter. -/
def answersTo (p : Parameter) (name : String) : Bool :=
  p.name == name || p.otherNames.contains name

end Parameter

end CommandShell
