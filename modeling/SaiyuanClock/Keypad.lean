import Mathlib.Data.List.Basic

/-!
# The matrix keypad

`Get_Key` of `bsp_matrixkey.c` turns the number `key_scan` found (0 when no key is down) into a
character, and `button_key_check` of `utils.c` turns the character into a function key. Four of
the sixteen keys have the function of the main activity: the key `1`, and the keys `*`, `#` and
`D`, which only the default branch of `button_key_transform` covers.
-/

namespace SaiyuanClock

/-- `enum BUTTON_KEY_FUNCTIONS`. -/
inductive ButtonKey where
  | mainActivity
  | alarmActivity
  | alarmRingtoneActivity
  | alarmSettingActivity
  | clickUp
  | clickDown
  | clickLeft
  | clickRight
  | confirm
  | cancel
  | reset
  | blank
  | lightOn
  | lightOff
  deriving DecidableEq, Repr

/-- `Get_Key`: the character of a key number. -/
def getKey (value : Nat) : Char :=
  match value with
  | 1 => '1'
  | 2 => '2'
  | 3 => '3'
  | 4 => 'A'
  | 5 => '4'
  | 6 => '5'
  | 7 => '6'
  | 8 => 'B'
  | 9 => '7'
  | 10 => '8'
  | 11 => '9'
  | 12 => 'C'
  | 13 => '*'
  | 14 => '0'
  | 15 => '#'
  | 16 => 'D'
  | _ => 'n'

/-- `button_key_transform`: the function of a character. -/
def buttonKeyTransform (keyValue : Char) : ButtonKey :=
  match keyValue with
  | '1' => .mainActivity
  | '2' => .alarmActivity
  | '3' => .alarmRingtoneActivity
  | '4' => .alarmSettingActivity
  | '5' => .clickUp
  | '6' => .clickDown
  | '7' => .clickLeft
  | '8' => .clickRight
  | '9' => .confirm
  | '0' => .cancel
  | 'A' => .reset
  | 'B' => .lightOn
  | 'C' => .lightOff
  | _ => .mainActivity

/-- `button_key_check`, given the number that `key_scan` returns. -/
def buttonKeyCheck (value : Nat) : ButtonKey :=
  let keyValue := getKey value
  if keyValue ≠ 'n' then buttonKeyTransform keyValue else .blank

/-- The keypad characters whose function is the main activity. -/
theorem button_key_check_main_iff (value : Nat) :
    buttonKeyCheck value = .mainActivity ↔ getKey value ∈ ['1', '*', '#', 'D'] := by
  unfold buttonKeyCheck getKey
  split <;> decide

end SaiyuanClock
