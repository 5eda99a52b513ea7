import AndroidAppliance.Text.Lines

/-!
# Results of `adb`

`Result` of `appliance/adb.py` and `_check_path` of `appliance/backend.py`, which every operation
on the files of the device uses.
-/

namespace AndroidAppliance

namespace Device

/-- `Result`, with the two streams decoded. -/
structure Result where
  exitCode : Int
  stdout : Str
  stderr : Str
  deriving DecidableEq, Repr

namespace Result

/-- `Result.text`. -/
def text (r : Result) : Str := Str.crlf r.stdout

/-- `Result.error_text`. -/
def errorText (r : Result) : Str := Str.strip r.stderr

/-- `Result.output`. -/
def output (r : Result) : Str := Str.strip (r.text ++ r.stderr)

end Result

/-- The test of `_check_path`. -/
def checkPath (path : Str) : Bool :=
  path.head? = some '/' && !path.contains '\n' && !path.contains (Char.ofNat 0)

end Device

end AndroidAppliance
