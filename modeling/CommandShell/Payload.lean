import CommandShell.Value.Json.Writer

/-!
# Payloads as text

## Main definitions

* `payloadText`: what is written for a payload.
-/

namespace CommandShell

/-- What is written for a payload: a text as it is, every other value as JSON. -/
def payloadText : Value → String
  | .text s => s
  | v => Json.encodeShown v

@[simp] theorem payloadText_text (s : String) : payloadText (.text s) = s := rfl

end CommandShell
