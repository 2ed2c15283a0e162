/-
The scancodes of the keyboard, `keyboard_process_scancode` of
`src/kernel/drivers/pc/ps2_core.c`.

The driver has one flag for each modifier, though most modifiers have two keys. A press sets
the flag and a release clears it, whatever the other key does. So the flags are those of the
keys that are down exactly as long as no modifier key is released while its twin is held
(`NoTwinHeld`), and what a character key is translated to is what the held modifiers make
of it.

`keyboard_sync_leds` talks to the keyboard and changes none of the variables; it is left out.
A `char` of the source is its code, and `& 0x80u` and `& 0x7Fu` of a byte are written as a
comparison and a remainder.
-/
import System1.Ps2Queue
import System1.TtyLine

set_option autoImplicit false

namespace System1.Ps2

open System1.Tty Function List

/-! ## Translation -/

/-- A table of characters, given by the runs of codes that have one. -/
def charTable (runs : List (Nat × String)) (scancode : Nat) : Nat :=
  (runs.findSome? fun (first, chars) =>
    if first ≤ scancode then chars.toList[scancode - first]?.map Char.toNat else none).getD 0

def base_map : Nat → Nat :=
  charTable [(0x39, " "), (0x2B, "\\zxcvbnm,./"), (0x1E, "asdfghjkl;'`"),
    (0x02, "1234567890-=\x08\tqwertyuiop[]\n")]

def shift_map : Nat → Nat :=
  charTable [(0x39, " "), (0x2B, "|ZXCVBNM<>?"), (0x1E, "ASDFGHJKL:\"~"),
    (0x02, "!@#$%^&*()_+\x08\tQWERTYUIOP\x7b\x7d\n")]

def isLower (c : Nat) : Bool := 0x61 ≤ c && c ≤ 0x7A
def isUpper (c : Nat) : Bool := 0x41 ≤ c && c ≤ 0x5A

def is_ascii_alpha (c : Nat) : Bool := isLower c || isUpper c

def ascii_to_upper (c : Nat) : Nat := if isLower c then c - 32 else c

def ascii_to_lower (c : Nat) : Nat := if isUpper c then c + 32 else c

def ascii_to_ctrl (c : Nat) : Nat :=
  if isLower (ascii_to_lower c) then ascii_to_lower c - 0x61 + 1 else 0

def translate_scancode (shift_pressed capslock_on : Bool) (scancode : Nat) : Nat :=
  if scancode ≥ 128 then 0
  else
    let translated := if shift_pressed then shift_map scancode else base_map scancode
    if translated = 0 ∨ is_ascii_alpha translated = false then translated
    else if xor shift_pressed capslock_on then ascii_to_upper translated
    else ascii_to_lower translated

/-! ## The decoder -/

structure Keyboard where
  queue : Queue
  shift_pressed : Bool
  ctrl_pressed : Bool
  alt_pressed : Bool
  capslock_on : Bool
  numlock_on : Bool
  extended_prefix : Bool

/-- The key that a code behind `0xE0` stands for. -/
def extendedKey (ctrl_pressed alt_pressed : Bool) : Nat → Option Int
  | 0x4B => some KEY_LEFT
  | 0x48 => some KEY_UP
  | 0x4D => some KEY_RIGHT
  | 0x50 => some KEY_DOWN
  | 0x52 => some KEY_INSERT
  | 0x53 => some (if ctrl_pressed && alt_pressed then KEY_CTRL_ALT_DEL else KEY_DELETE)
  | 0x1C => some KEY_NEWLINE
  | 0x35 => some 0x2F
  | _ => none

/-- The `switch` over the keypad. -/
def keypadKey (number_mode : Bool) : Nat → Option Int
  | 0x47 => if number_mode then some 0x37 else none
  | 0x48 => some (if number_mode then 0x38 else KEY_UP)
  | 0x49 => if number_mode then some 0x39 else none
  | 0x4A => some 0x2D
  | 0x4B => some (if number_mode then 0x34 else KEY_LEFT)
  | 0x4C => if number_mode then some 0x35 else none
  | 0x4D => some (if number_mode then 0x36 else KEY_RIGHT)
  | 0x4E => some 0x2B
  | 0x4F => if number_mode then some 0x31 else none
  | 0x50 => some (if number_mode then 0x32 else KEY_DOWN)
  | 0x51 => if number_mode then some 0x33 else none
  | 0x52 => some (if number_mode then 0x30 else KEY_INSERT)
  | 0x53 => some 0x2E
  | _ => none

/-- The key that another code stands for. -/
def plainKey (shift_pressed ctrl_pressed capslock_on numlock_on : Bool) (scancode : Nat) :
    Option Int :=
  if 0x47 ≤ scancode ∧ scancode ≤ 0x53 then keypadKey (xor numlock_on shift_pressed) scancode
  else if scancode = 0x37 then some 0x2A
  else
    let translated := translate_scancode shift_pressed capslock_on scancode
    if translated = 0 then none
    else if ctrl_pressed ∧ ascii_to_ctrl translated ≠ 0 then some (ascii_to_ctrl translated)
    else some translated

def pushKey (q : Queue) : Option Int → Queue
  | some key => queue_push q key
  | none => q

def keyboard_process_scancode (kb : Keyboard) (scancode : Nat) : Keyboard :=
  if scancode = 0xE0 then { kb with extended_prefix := true }
  else if kb.extended_prefix then
    let is_break : Bool := scancode ≥ 0x80
    let code := scancode % 0x80
    let kb := { kb with extended_prefix := false }
    if code = 0x1D then { kb with ctrl_pressed := !is_break }
    else if code = 0x38 then { kb with alt_pressed := !is_break }
    else if is_break then kb
    else { kb with queue := pushKey kb.queue (extendedKey kb.ctrl_pressed kb.alt_pressed code) }
  else if scancode = 0x2A ∨ scancode = 0x36 then { kb with shift_pressed := true }
  else if scancode = 0xAA ∨ scancode = 0xB6 then { kb with shift_pressed := false }
  else if scancode = 0x1D then { kb with ctrl_pressed := true }
  else if scancode = 0x9D then { kb with ctrl_pressed := false }
  else if scancode = 0x38 then { kb with alt_pressed := true }
  else if scancode = 0xB8 then { kb with alt_pressed := false }
  else if scancode = 0x3A then { kb with capslock_on := !kb.capslock_on }
  else if scancode = 0x45 then { kb with numlock_on := !kb.numlock_on }
  else if scancode ≥ 0x80 then kb
  else { kb with
    queue := pushKey kb.queue (plainKey kb.shift_pressed kb.ctrl_pressed kb.capslock_on
      kb.numlock_on scancode) }

/-! ## Keys -/

inductive Modifier where
  | shift
  | ctrl
  | alt
  deriving DecidableEq

/-- A key of the keyboard by its code in set 1. There is none at 0x60, where the code of a
release would be the byte `0xE0`. -/
structure Key where
  extended : Bool
  code : Nat
  code_lt : code < 0x80
  not_mark : code ≠ 0x60
  deriving DecidableEq

def Key.modifier (k : Key) : Option Modifier :=
  if k.code = 0x1D then some .ctrl
  else if k.code = 0x38 then some .alt
  else if k.extended = false ∧ (k.code = 0x2A ∨ k.code = 0x36) then some .shift
  else none

/-- A key goes down or up. -/
structure KeyEvent where
  key : Key
  down : Bool

def KeyEvent.bytes (e : KeyEvent) : List Nat :=
  (if e.key.extended then [0xE0] else []) ++ [if e.down then e.key.code else e.key.code + 0x80]

def Keyboard.send (kb : Keyboard) (e : KeyEvent) : Keyboard :=
  e.bytes.foldl keyboard_process_scancode kb

def Keyboard.pressed (kb : Keyboard) : Modifier → Bool
  | .shift => kb.shift_pressed
  | .ctrl => kb.ctrl_pressed
  | .alt => kb.alt_pressed

/-- The key in the buffer for a key that goes down while the modifiers `held` are. -/
def Key.meaning (k : Key) (held : Modifier → Bool) (capslock_on numlock_on : Bool) : Option Int :=
  if k.extended then extendedKey (held .ctrl) (held .alt) k.code
  else plainKey (held .shift) (held .ctrl) capslock_on numlock_on k.code

/-! ## One key -/

section

variable {kb : Keyboard} (hkb : kb.extended_prefix = false) (e : KeyEvent)

include hkb

/-- The keys behind `0xE0`. -/
theorem send_extended (hext : e.key.extended = true) : kb.send e =
    if e.key.code = 0x1D then { kb with ctrl_pressed := e.down }
    else if e.key.code = 0x38 then { kb with alt_pressed := e.down }
    else if e.down then
      { kb with queue := pushKey kb.queue (extendedKey kb.ctrl_pressed kb.alt_pressed e.key.code) }
    else kb := by
  obtain ⟨⟨ext, code, hlt, hmark⟩, down⟩ := e
  obtain ⟨queue, shift, ctrl, alt, caps, num, pre⟩ := kb
  cases hext
  cases hkb
  have hbreak : (code + 0x80) % 0x80 = code := by omega
  have hmake : code % 0x80 = code := Nat.mod_eq_of_lt hlt
  cases down with
  | true =>
    show keyboard_process_scancode ⟨queue, shift, ctrl, alt, caps, num, true⟩ code = _
    simp [keyboard_process_scancode, hmake, show code ≠ 224 by omega, hlt.not_ge]
  | false =>
    show keyboard_process_scancode ⟨queue, shift, ctrl, alt, caps, num, true⟩ (code + 0x80) = _
    simp [keyboard_process_scancode, hbreak, hmark]

/-- The other keys. -/
theorem send_plain (hext : e.key.extended = false) : kb.send e =
    if e.key.code = 0x2A ∨ e.key.code = 0x36 then { kb with shift_pressed := e.down }
    else if e.key.code = 0x1D then { kb with ctrl_pressed := e.down }
    else if e.key.code = 0x38 then { kb with alt_pressed := e.down }
    else if e.down = false then kb
    else if e.key.code = 0x3A then { kb with capslock_on := !kb.capslock_on }
    else if e.key.code = 0x45 then { kb with numlock_on := !kb.numlock_on }
    else { kb with queue := pushKey kb.queue (plainKey kb.shift_pressed kb.ctrl_pressed
      kb.capslock_on kb.numlock_on e.key.code) } := by
  obtain ⟨⟨ext, code, hlt, hmark⟩, down⟩ := e
  cases hext
  cases down with
  | true =>
    show keyboard_process_scancode kb code = _
    unfold keyboard_process_scancode
    rw [hkb]
    grind
  | false =>
    show keyboard_process_scancode kb (code + 0x80) = _
    unfold keyboard_process_scancode
    rw [hkb]
    grind

/-- After a whole event no extended code is pending. -/
theorem send_complete : Keyboard.extended_prefix (kb.send e) = false := by
  cases hext : e.key.extended with
  | true =>
    rw [send_extended hkb e hext]
    grind
  | false =>
    rw [send_plain hkb e hext]
    grind

/-- An event moves its own modifier and no other. -/
theorem send_pressed (m : Modifier) :
    (kb.send e).pressed m = if e.key.modifier = some m then e.down else kb.pressed m := by
  unfold Key.modifier Keyboard.pressed
  cases hext : e.key.extended with
  | true =>
    rw [send_extended hkb e hext]
    cases m <;> grind
  | false =>
    rw [send_plain hkb e hext]
    cases m <;> grind

/-- A key that is no modifier queues its meaning when pressed. -/
theorem send_queue {k : Key} (hk : k.modifier = none) :
    (kb.send ⟨k, true⟩).queue =
      pushKey kb.queue (k.meaning kb.pressed kb.capslock_on kb.numlock_on) := by
  unfold Key.modifier at hk
  unfold Key.meaning
  cases hext : k.extended with
  | true =>
    rw [send_extended hkb ⟨k, true⟩ hext]
    grind [Keyboard.pressed]
  | false =>
    -- a lock key has no meaning
    have hlock : ∀ shift ctrl caps num, plainKey shift ctrl caps num 0x3A = none ∧
        plainKey shift ctrl caps num 0x45 = none := by decide
    rw [send_plain hkb ⟨k, true⟩ hext]
    grind [Keyboard.pressed, pushKey]

end

/-! ## The keys that are down -/

/-- The keys that are down after a sequence of presses and releases. -/
def heldAfter (events : List KeyEvent) : Key → Bool :=
  events.foldl (fun held e => update held e.key e.down) fun _ => false

/-- The modifiers that the keys which are down are keys of. -/
def HeldBy (held : Key → Bool) (mods : Modifier → Bool) : Prop :=
  ∀ m, mods m = true ↔ ∃ k, held k = true ∧ k.modifier = some m

/-- If this is the release of a modifier key, no other key of the modifier is down. -/
def NoTwinHeld (held : Key → Bool) (e : KeyEvent) : Prop :=
  e.down = false → e.key.modifier ≠ none →
    ∀ k, held k = true → k.modifier = e.key.modifier → k = e.key

/-- The flags lose track exactly when a release leaves a twin key down. -/
theorem heldBy_send_iff {kb : Keyboard} (hkb : kb.extended_prefix = false) {held : Key → Bool}
    (h : HeldBy held kb.pressed) (e : KeyEvent) :
    HeldBy (update held e.key e.down) (kb.send e).pressed ↔ NoTwinHeld held e := by
  constructor
  · intro h' hup hmod k hk hsame
    by_contra hne
    obtain ⟨m, hm⟩ := Option.ne_none_iff_exists'.mp hmod
    have hflag := (h' m).mpr ⟨k, by rw [update_of_ne hne, hk], hsame.trans hm⟩
    rw [send_pressed hkb, if_pos hm, hup] at hflag
    cases hflag
  · intro htwin m
    rw [send_pressed hkb]
    split
    · next hm =>
      refine ⟨fun hdown => ⟨e.key, by rw [update_self, hdown], hm⟩, ?_⟩
      rintro ⟨k, hk, hmod⟩
      by_contra hup
      rw [Bool.not_eq_true] at hup
      have hne : k ≠ e.key := by
        rintro rfl
        rw [update_self, hup] at hk
        cases hk
      rw [update_of_ne hne] at hk
      exact hne (htwin hup (by rw [hm]; nofun) k hk (hmod.trans hm.symm))
    · next hm =>
      rw [h m]
      grind

/-- `ps2_init` -/
def Keyboard.init (queue : Queue) : Keyboard := ⟨queue, false, false, false, false, false, false⟩

/-- After every press and release the flags are those of the modifiers that are down, and a
key is translated with these, exactly as long as no modifier key is released while another
key of the modifier is held. -/
theorem modifiers_tracked_iff (queue : Queue) (events : List KeyEvent) :
    (∀ past, past <+: events → let kb := past.foldl Keyboard.send (Keyboard.init queue)
      HeldBy (heldAfter past) kb.pressed ∧
        ∀ k mods, k.modifier = none → HeldBy (heldAfter past) mods →
          (kb.send ⟨k, true⟩).queue =
            pushKey kb.queue (k.meaning mods kb.capslock_on kb.numlock_on)) ↔
      ∀ past e, past ++ [e] <+: events → NoTwinHeld (heldAfter past) e := by
  have hcomplete : ∀ past : List KeyEvent,
      Keyboard.extended_prefix (past.foldl Keyboard.send (Keyboard.init queue)) = false := by
    intro past
    induction past using reverseRecOn with
    | nil => rfl
    | append_singleton past e ih =>
      rw [foldl_append]
      exact send_complete ih e
  have hstep : ∀ past e,
      HeldBy (heldAfter past) (past.foldl Keyboard.send (Keyboard.init queue)).pressed →
      (HeldBy (heldAfter (past ++ [e]))
        ((past ++ [e]).foldl Keyboard.send (Keyboard.init queue)).pressed ↔
          NoTwinHeld (heldAfter past) e) := by
    intro past e h
    unfold heldAfter
    rw [foldl_append, foldl_append]
    exact heldBy_send_iff (hcomplete past) h e
  constructor
  · grind [prefix_append]
  · intro h past hpast
    have htracked : HeldBy (heldAfter past)
        (past.foldl Keyboard.send (Keyboard.init queue)).pressed := by
      induction past using reverseRecOn with
      | nil => exact fun m => ⟨by cases m <;> nofun, nofun⟩
      | append_singleton past e ih =>
        exact (hstep past e (ih ((prefix_append past [e]).trans hpast))).mpr (h past e hpast)
    refine ⟨htracked, fun k mods hk hmods => ?_⟩
    have hsame : mods = (past.foldl Keyboard.send (Keyboard.init queue)).pressed := by
      funext m
      rw [Bool.eq_iff_iff, hmods m, htracked m]
    rw [hsame]
    exact send_queue (hcomplete past) hk

/-- The two shift keys. -/
def leftShift : Key := ⟨false, 0x2A, by decide, by decide⟩
def rightShift : Key := ⟨false, 0x36, by decide, by decide⟩

/-- Both are pressed and the left one is released: the flag is gone while the right one is
still down. -/
theorem other_shift_forgotten :
    let events : List KeyEvent := [⟨leftShift, true⟩, ⟨rightShift, true⟩, ⟨leftShift, false⟩]
    (events.foldl Keyboard.send (Keyboard.init ⟨fun _ => 0, 0, 0⟩)).shift_pressed = false ∧
      heldAfter events rightShift = true ∧ rightShift.modifier = some .shift :=
  ⟨rfl, rfl, rfl⟩

end System1.Ps2
