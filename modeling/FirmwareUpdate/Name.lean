/-
Names typed by the user.
-/
namespace FirmwareUpdate

/-- Whether two names agree up to the case of ASCII letters. -/
def sameName (x y : String) : Bool :=
  x.toList.map Char.toLower == y.toList.map Char.toLower

end FirmwareUpdate
