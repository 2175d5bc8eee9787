/-
# Where a message ends

The bytes of a message are tokens: a control code and its parameters make one, every other byte is
one by itself. A message ends at the first token that begins with a byte of a certain kind
(`EndsAt`); a parameter of that kind does not count. The search for the end keeps no tokens, only
the number of parameters that are still to come, and finds the same byte (`findEnd_eq`,
`endIndex?_eq_some_iff`). It reads no further than that byte (`findEnd_of_endIndex?`), and has read
the whole message where it ends well (`findEnd_eq_ok`).
-/

import Disassembly.Proofs.Image.Window
import Disassembly.Proofs.Script.Action
import Disassembly.Routine.Message

namespace Disassembly

/-- How many parameters follow a code. -/
def CharacterSet.operands (charset : CharacterSet) (code : UInt8) : Nat :=
  match charset.glyph code with
  | .control operands => operands
  | _ => 0

/-- One parameter follows the codes `10` to `15` of the Spectrum, and two follow `16` and `17`. -/
def Spectrum.operands (code : UInt8) : Nat :=
  if 0x10 ≤ code ∧ code ≤ 0x15 then 1 else if 0x16 ≤ code ∧ code ≤ 0x17 then 2 else 0

theorem Spectrum.operands_charset : Spectrum.charset.operands = Spectrum.operands := by
  funext code
  simp only [CharacterSet.operands, Spectrum.charset, Spectrum.glyph, Spectrum.operands,
    UInt8.le_iff_toNat_le, UInt8.reduceToNat]
  split_ifs <;> rfl

namespace Routine.Message

open Script

/-- **The byte at an index ends a message.** It is of the kind that does, and in front of it are
whole tokens that do not begin with such a byte. -/
inductive EndsAt (operands : UInt8 → Nat) (ends : UInt8 → Bool) : List UInt8 → Nat → Prop
  | here {b : UInt8} (rest : List UInt8) (hends : ends b = true) :
    EndsAt operands ends (b :: rest) 0
  | token {b : UInt8} {parameters rest : List UInt8} {i : Nat} (hends : ends b = false)
    (hparameters : parameters.length = operands b) (h : EndsAt operands ends rest i) :
    EndsAt operands ends (b :: (parameters ++ rest)) (parameters.length + i + 1)

variable {operands : UInt8 → Nat} {ends : UInt8 → Bool} {bytes : List UInt8} {i : Nat}

/-- The index of the byte that ends a message, behind the parameters that are still to come. -/
def endIndex? (operands : UInt8 → Nat) (ends : UInt8 → Bool) : Nat → List UInt8 → Option Nat
  | _, [] => none
  | parameters + 1, _ :: bytes => (endIndex? operands ends parameters bytes).map (· + 1)
  | 0, b :: bytes =>
    if ends b then some 0 else (endIndex? operands ends (operands b) bytes).map (· + 1)

/-- Parameters are passed over. -/
theorem endIndex?_append (parameters bytes : List UInt8) :
    endIndex? operands ends parameters.length (parameters ++ bytes) =
      (endIndex? operands ends 0 bytes).map (parameters.length + ·) := by
  induction parameters with
  | nil => simp
  | cons b parameters ih =>
    rw [List.length_cons, List.cons_append, endIndex?, ih, Option.map_map]
    congr 1
    funext n
    simp only [Function.comp_apply]
    omega

/-- Where the search succeeds, the parameters are there and the message ends behind them. -/
theorem exists_endsAt {parameters : Nat} (h : endIndex? operands ends parameters bytes = some i) :
    ∃ (front rest : List UInt8) (j : Nat), bytes = front ++ rest ∧ front.length = parameters ∧
      EndsAt operands ends rest j ∧ i = parameters + j := by
  induction bytes generalizing parameters i with
  | nil => simp [endIndex?] at h
  | cons b bytes ih =>
    cases parameters with
    | zero =>
      rw [endIndex?] at h
      split_ifs at h with hends
      · exact ⟨[], b :: bytes, 0, rfl, rfl, .here bytes hends, by simpa using h.symm⟩
      · obtain ⟨k, hk, rfl⟩ := Option.map_eq_some_iff.1 h
        obtain ⟨front, rest, j, rfl, hfront, hrest, rfl⟩ := ih hk
        refine ⟨[], _, _, rfl, rfl, .token (Bool.eq_false_iff.2 hends) hfront hrest, ?_⟩
        omega
    | succ parameters =>
      rw [endIndex?] at h
      obtain ⟨k, hk, rfl⟩ := Option.map_eq_some_iff.1 h
      obtain ⟨front, rest, j, rfl, rfl, hrest, rfl⟩ := ih hk
      exact ⟨b :: front, rest, j, rfl, rfl, hrest, by omega⟩

/-- **The search that only counts parameters finds where a message ends.** -/
theorem endIndex?_eq_some_iff :
    endIndex? operands ends 0 bytes = some i ↔ EndsAt operands ends bytes i := by
  constructor
  · intro h
    obtain ⟨front, rest, j, rfl, hfront, hrest, rfl⟩ := exists_endsAt h
    rw [List.length_eq_zero_iff.1 hfront, Nat.zero_add]
    exact hrest
  · intro h
    induction h with
    | here rest hends => rw [endIndex?, if_pos hends]
    | @token b parameters rest i hends hparameters _ ih =>
      rw [endIndex?, hends, if_neg Bool.false_ne_true, ← hparameters, endIndex?_append, ih]
      rfl

/-- The byte that ends a message is one of the bytes. -/
theorem EndsAt.exists_append (h : EndsAt operands ends bytes i) :
    ∃ (front : List UInt8) (b : UInt8) (rest : List UInt8),
      bytes = front ++ b :: rest ∧ front.length = i := by
  induction h with
  | @here b rest _ => exact ⟨[], b, rest, rfl, rfl⟩
  | @token b parameters _ i _ _ _ ih =>
    obtain ⟨front, b', rest, rfl, rfl⟩ := ih
    refine ⟨b :: (parameters ++ front), b', rest, ?_, ?_⟩
    · rw [List.cons_append, List.append_assoc]
    · rw [List.length_cons, List.length_append]

/-- The byte that ends a message is of the kind to end it. -/
theorem EndsAt.ends_getElem? (h : EndsAt operands ends bytes i) :
    ∃ b, bytes[i]? = some b ∧ ends b = true := by
  induction h with
  | @here b rest hends => exact ⟨b, rfl, hends⟩
  | @token b parameters rest i hends hparameters h ih =>
    obtain ⟨b', hb', hends'⟩ := ih
    refine ⟨b', ?_, hends'⟩
    rw [List.getElem?_cons_succ, List.getElem?_append_right (Nat.le_add_right _ _),
      Nat.add_sub_cancel_left, hb']

/-- **The bytes are the message that begins a room of so many bytes.** It ends with the first byte
that is of the kind to end it; without one it takes up all the room. -/
inductive IsMessage (operands : UInt8 → Nat) (ends : UInt8 → Bool) (room : Nat) :
    List UInt8 → Prop
  | ended {front : List UInt8} {b : UInt8} (hroom : front.length < room)
    (hends : EndsAt operands ends (front ++ [b]) front.length) :
    IsMessage operands ends room (front ++ [b])
  | whole {bytes : List UInt8} (hlength : bytes.length = room)
    (hends : ∀ i, ¬EndsAt operands ends bytes i) : IsMessage operands ends room bytes

theorem IsMessage.length_le {room : Nat} (h : IsMessage operands ends room bytes) :
    bytes.length ≤ room := by
  cases h with
  | ended hroom hends =>
    rw [List.length_append]
    exact hroom
  | whole hlength hends => exact Nat.le_of_eq hlength

/-! ### The search -/

/-- **The search for the end reads the bytes of the block.** -/
theorem findEnd_eq (setting : Setting) (ends : UInt8 → Bool) (address : Nat) (c : Context) :
    ∀ (bytes : List UInt8) (index parameters : Nat), setting.image.Holds (address + index) bytes →
      findEnd setting ends address bytes.length index parameters c =
        .ok ((endIndex? setting.charset.operands ends parameters bytes).map (index + ·)) c := by
  intro bytes
  induction bytes with
  | nil =>
    intro index parameters _
    rfl
  | cons b bytes ih =>
    intro index parameters hholds
    have hread : Action.readByte setting (address + index) = pure b := by
      rw [Action.readByte, hholds.1]
    have hnext (parameters : Nat) :
        findEnd setting ends address bytes.length (index + 1) parameters c =
          .ok (((endIndex? setting.charset.operands ends parameters bytes).map (· + 1)).map
            (index + ·)) c := by
      rw [ih (index + 1) parameters hholds.2, Option.map_map]
      congr 2
      funext n
      simp only [Function.comp_apply]
      omega
    rw [List.length_cons, findEnd, hread, bind_ok (pure_apply _ _)]
    cases parameters with
    | succ parameters => exact hnext parameters
    | zero =>
      rw [endIndex?]
      cases ends b with
      | true => rfl
      | false =>
        simp only [Bool.false_eq_true, if_false]
        rw [← hnext, CharacterSet.operands]
        cases setting.charset.glyph b <;> rfl

variable {setting : Setting} {c c' : Context}

/-- How many parameters are to come behind a byte. -/
def remainingParameters (operands : UInt8 → Nat) : Nat → UInt8 → Nat
  | 0, b => operands b
  | parameters + 1, _ => parameters

theorem endIndex?_cons (operands : UInt8 → Nat) (ends : UInt8 → Bool) (parameters : Nat) (b : UInt8)
    (bytes : List UInt8) :
    endIndex? operands ends parameters (b :: bytes) =
      if parameters = 0 ∧ ends b = true then some 0
      else
        (endIndex? operands ends (remainingParameters operands parameters b) bytes).map (· + 1) := by
  cases parameters with
  | zero => simp [endIndex?, remainingParameters]
  | succ parameters => simp [endIndex?, remainingParameters]

theorem findEnd_succ (setting : Setting) (ends : UInt8 → Bool)
    (address count index parameters : Nat) :
    findEnd setting ends address (count + 1) index parameters =
      (Action.readByte setting (address + index) >>= fun b =>
        if parameters = 0 ∧ ends b = true then pure (some index)
        else findEnd setting ends address count (index + 1)
          (remainingParameters setting.charset.operands parameters b)) := by
  rw [findEnd]
  congr 1
  funext b
  cases parameters with
  | succ parameters => simp [remainingParameters]
  | zero =>
    simp only [true_and, remainingParameters, CharacterSet.operands]
    split_ifs
    · rfl
    · cases setting.charset.glyph b <;> rfl

/-- **A search that ends well has read bytes of the buffer**, up to the one that ends the message or
all of them. -/
theorem findEnd_eq_ok {address count index parameters : Nat} {found : Option Nat}
    (h : findEnd setting ends address count index parameters c = .ok found c') :
    c' = c ∧ ∃ bytes : List UInt8, setting.image.Holds (address + index) bytes ∧
      found = (endIndex? setting.charset.operands ends parameters bytes).map (index + ·) ∧
      (found = none ∧ bytes.length = count ∨
        ∃ n, found = some (index + n) ∧ bytes.length = n + 1 ∧ n < count) := by
  induction count generalizing index parameters with
  | zero =>
    obtain ⟨rfl, rfl⟩ := EStateM.Result.ok.inj h
    exact ⟨rfl, [], trivial, rfl, .inl ⟨rfl, rfl⟩⟩
  | succ count ih =>
    rw [findEnd_succ] at h
    obtain ⟨b, c₁, hread, hrest⟩ := bind_eq_ok h
    obtain ⟨hbyte, rfl⟩ := readByte_eq_ok hread
    split_ifs at hrest with hends
    · obtain ⟨rfl, rfl⟩ := EStateM.Result.ok.inj hrest
      refine ⟨rfl, [b], ⟨hbyte, trivial⟩, ?_, .inr ⟨0, rfl, rfl, Nat.succ_pos _⟩⟩
      rw [endIndex?_cons, if_pos hends]
      rfl
    · obtain ⟨rfl, bytes, hholds, hfound, hlength⟩ := ih hrest
      refine ⟨rfl, b :: bytes, ⟨hbyte, hholds⟩, ?_, ?_⟩
      · rw [endIndex?_cons, if_neg hends, hfound, Option.map_map]
        congr 1
        funext n
        simp only [Function.comp_apply]
        omega
      · rcases hlength with ⟨hnone, hlength⟩ | ⟨n, hsome, hlength, hlt⟩
        · exact .inl ⟨hnone, by rw [List.length_cons, hlength]⟩
        · refine .inr ⟨n + 1, ?_, by rw [List.length_cons, hlength], by omega⟩
          rw [hsome, Nat.add_assoc, Nat.add_comm 1]

/-- A search goes no further than to the byte that ends the message. -/
theorem findEnd_of_endIndex? (c : Context) (address : Nat) {bytes : List UInt8} {count n : Nat}
    (hcount : bytes.length ≤ count) :
    ∀ index parameters : Nat, setting.image.Holds (address + index) bytes →
      endIndex? setting.charset.operands ends parameters bytes = some n →
      findEnd setting ends address count index parameters c = .ok (some (index + n)) c := by
  induction bytes generalizing count n with
  | nil =>
    intro index parameters _ hend
    cases parameters <;> cases hend
  | cons b bytes ih =>
    intro index parameters hholds hend
    rw [List.length_cons] at hcount
    obtain ⟨count, rfl⟩ : ∃ k, count = k + 1 := ⟨count - 1, by omega⟩
    have hread : Action.readByte setting (address + index) c = .ok b c := by
      rw [Action.readByte, hholds.1]
      rfl
    rw [endIndex?_cons] at hend
    rw [findEnd_succ, bind_ok hread]
    split_ifs at hend ⊢ with hends
    · obtain rfl := Option.some.inj hend
      rfl
    · obtain ⟨m, hm, rfl⟩ := Option.map_eq_some_iff.1 hend
      rw [ih (Nat.le_of_succ_le_succ hcount) _ _ hholds.2 hm, Nat.add_assoc, Nat.add_comm 1]

end Routine.Message
end Disassembly
