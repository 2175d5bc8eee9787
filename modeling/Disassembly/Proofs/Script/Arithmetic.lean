/-
# Script arithmetic

`%X` puts the result of an operation on one or two operands into a slot. The operation is one on
integers, taken modulo 65536 (`integerResult`). It can be computed in 32-bit words, where nothing
over- or underflows (`result32?`): a difference is biased by 65536 so that it stays positive, and the
largest product is just below the limit. The slot reads back as the result, slot 12 through the current
address, and no other slot changes, except that operands may move the current address on before
(`arithmetic_outcome`).
-/

import Disassembly.Proofs.Script.Scripted
import Disassembly.Proofs.Script.Skipping

namespace Disassembly
namespace Script

variable {setting : Setting} {c c' : Context} {a b : UInt16} {operation : Nat}

/-! ### Results -/

/-- The result of an operation on integers. -/
def integerResult (operation a b : Nat) : Int :=
  match operation with
  | 0 => a
  | 1 => a + b
  | 2 => a - b
  | 3 => a * b
  | 4 => a / b
  | 5 => a % b
  | 6 => (a &&& b : Nat)
  | 7 => (a ||| b : Nat)
  | _ => (a ^^^ b : Nat)

/-- Whether an operation divides by zero. -/
def DividesByZero (operation : Nat) (b : UInt16) : Prop := (operation = 4 ∨ operation = 5) ∧ b = 0

/-- The sum of two 32-bit words, if it is one. -/
def sum32? (a b : UInt32) : Option UInt32 :=
  if a.toNat + b.toNat < 0x100000000 then some (a + b) else none

/-- The difference of two 32-bit words, if it is one. -/
def difference32? (a b : UInt32) : Option UInt32 :=
  if b.toNat ≤ a.toNat then some (a - b) else none

/-- The product of two 32-bit words, if it is one. -/
def product32? (a b : UInt32) : Option UInt32 :=
  if a.toNat * b.toNat < 0x100000000 then some (a * b) else none

/-- An operation computed in 32-bit words, if all that it goes through fits and it does not divide by
zero. -/
def result32? (operation : Nat) (a b : UInt32) : Option UInt32 :=
  match operation with
  | 0 => some a
  | 1 => sum32? a b
  | 2 => (sum32? a 0x10000).bind fun biased => difference32? biased b
  | 3 => product32? a b
  | 4 => if b = 0 then none else some (a / b)
  | 5 => if b = 0 then none else some (a % b)
  | 6 => some (a &&& b)
  | 7 => some (a ||| b)
  | _ => some (a ^^^ b)

theorem exists_sum32? {a b : UInt32} (h : a.toNat + b.toNat < 0x100000000) :
    ∃ w, sum32? a b = some w ∧ w.toNat = a.toNat + b.toNat :=
  ⟨a + b, if_pos h, by rw [UInt32.toNat_add, Nat.mod_eq_of_lt h]⟩

theorem exists_difference32? {a b : UInt32} (h : b.toNat ≤ a.toNat) :
    ∃ w, difference32? a b = some w ∧ w.toNat = a.toNat - b.toNat :=
  ⟨a - b, if_pos h, UInt32.toNat_sub_of_le _ _ h⟩

theorem exists_product32? {a b : UInt32} (h : a.toNat * b.toNat < 0x100000000) :
    ∃ w, product32? a b = some w ∧ w.toNat = a.toNat * b.toNat :=
  ⟨a * b, if_pos h, by rw [UInt32.toNat_mul, Nat.mod_eq_of_lt h]⟩

theorem toUInt32_eq_zero : b.toUInt32 = 0 ↔ b = 0 := by
  rw [← UInt32.toNat_inj, ← UInt16.toNat_inj, UInt16.toNat_toUInt32]
  rfl

/-- **Nothing over- or underflows in 32 bits**, and the low 16 bits are the integer result. -/
theorem exists_result32? (hdivisor : ¬DividesByZero operation b) :
    ∃ w, result32? operation a.toUInt32 b.toUInt32 = some w ∧
      (w.toUInt16.toNat : Int) = integerResult operation a.toNat b.toNat % 0x10000 := by
  have ha := a.toNat_lt
  have hb := b.toNat_lt
  have ha' : a.toUInt32.toNat = a.toNat := a.toNat_toUInt32
  have hb' : b.toUInt32.toNat = b.toNat := b.toNat_toUInt32
  simp only [UInt32.toNat_toUInt16]
  unfold DividesByZero at hdivisor
  unfold result32? integerResult
  split
  · exact ⟨_, rfl, by omega⟩
  · obtain ⟨w, hw, htoNat⟩ := exists_sum32? (a := a.toUInt32) (b := b.toUInt32) (by omega)
    exact ⟨w, hw, by rw [htoNat, ha', hb']; simp⟩
  · obtain ⟨biased, hbiased, hsum⟩ := exists_sum32? (a := a.toUInt32) (b := 0x10000) (by simp; omega)
    have hbias : biased.toNat = a.toNat + 0x10000 := by rw [hsum, ha']; rfl
    obtain ⟨w, hw, htoNat⟩ := exists_difference32? (a := biased) (b := b.toUInt32) (by omega)
    exact ⟨w, by rw [hbiased, Option.bind_some, hw], by omega⟩
  · have hproduct : a.toNat * b.toNat ≤ 0xFFFF * 0xFFFF := Nat.mul_le_mul (by omega) (by omega)
    obtain ⟨w, hw, htoNat⟩ := exists_product32? (a := a.toUInt32) (b := b.toUInt32)
      (by rw [ha', hb']; omega)
    exact ⟨w, hw, by rw [htoNat, ha', hb']; simp⟩
  · have hzero : b ≠ 0 := by simpa using hdivisor
    exact ⟨_, if_neg (mt toUInt32_eq_zero.1 hzero), by simp⟩
  · have hzero : b ≠ 0 := by simpa using hdivisor
    exact ⟨_, if_neg (mt toUInt32_eq_zero.1 hzero), by simp⟩
  · exact ⟨_, rfl, by simp⟩
  · exact ⟨_, rfl, by simp⟩
  · exact ⟨_, rfl, by simp⟩

/-- The result of an operation on words, operation 0 included; none for a division by zero. -/
def result? (operation : Nat) (a b : UInt16) : Option UInt16 :=
  if operation = 0 then some a else arithmeticResult? operation a b

theorem result?_eq_none (hdivisor : DividesByZero operation b) : result? operation a b = none := by
  obtain ⟨rfl | rfl, rfl⟩ := hdivisor <;> rfl

/-- An operation on words of 16 bits has the low bits of what is computed in 32. -/
theorem result?_eq_some {w : UInt32} (hw : result32? operation a.toUInt32 b.toUInt32 = some w) :
    result? operation a b = some w.toUInt16 := by
  unfold result32? at hw
  unfold result? arithmeticResult?
  split at hw
  · obtain rfl := Option.some.inj hw
    simp
  · obtain rfl := Option.some.inj (Option.ite_none_right_eq_some.1 hw).2
    simp
  · obtain ⟨biased, hbiased, hw⟩ := Option.bind_eq_some_iff.1 hw
    obtain rfl := Option.some.inj (Option.ite_none_right_eq_some.1 hbiased).2
    obtain rfl := Option.some.inj (Option.ite_none_right_eq_some.1 hw).2
    simp
  · obtain rfl := Option.some.inj (Option.ite_none_right_eq_some.1 hw).2
    simp
  · obtain ⟨hdivisor, hw⟩ := Option.ite_none_left_eq_some.1 hw
    obtain rfl := Option.some.inj hw
    simp [mt toUInt32_eq_zero.2 hdivisor, ← UInt16.toUInt32_div]
  · obtain ⟨hdivisor, hw⟩ := Option.ite_none_left_eq_some.1 hw
    obtain rfl := Option.some.inj hw
    simp [mt toUInt32_eq_zero.2 hdivisor, ← UInt16.toUInt32_mod]
  · obtain rfl := Option.some.inj hw
    simp
  · obtain rfl := Option.some.inj hw
    simp
  · rename_i hzero _ _ _ _ _ _ _
    obtain rfl := Option.some.inj hw
    rw [if_neg hzero]
    simp

/-! ### Operands -/

namespace Operand

variable {o : Operand} {width : Width} {n : UInt16}

/-- How far evaluating an operand moves the current address. -/
def step (o : Operand) (width : Width) : Nat := if !o.isDirect && o.advances then width.bytes else 0

theorem evaluate_of_direct (hdirect : o.isDirect = true) :
    o.evaluate setting width c = .ok (o.direct c) c := by
  unfold evaluate
  rw [bind_ok (get_apply c)]
  dsimp only
  rw [hdirect, if_pos rfl]
  rfl

/-- What is left of an evaluation once the value is read from the buffer. -/
theorem exists_of_evaluate (hdirect : o.isDirect = false)
    (h : o.evaluate setting width c = .ok n c') :
    ∃ result, (if o.advances then do modify (·.advance width.bytes); return result
      else return result : Action UInt16) c = .ok n c' := by
  unfold evaluate at h
  rw [bind_ok (get_apply c)] at h
  dsimp only at h
  rw [hdirect, if_neg Bool.false_ne_true] at h
  cases width with
  | byte =>
    obtain ⟨result, c₁, hread, hdone⟩ := bind_eq_ok h
    rw [map_eq_pure_bind] at hread
    obtain ⟨b, c₂, hbyte, hresult⟩ := bind_eq_ok hread
    obtain ⟨-, rfl⟩ := EStateM.Result.ok.inj hresult
    obtain ⟨-, rfl⟩ := readByte_eq_ok hbyte
    exact ⟨result, hdone⟩
  | word =>
    obtain ⟨result, c₁, hread, hdone⟩ := bind_eq_ok h
    obtain ⟨-, rfl⟩ := readWord_eq_ok hread
    exact ⟨result, hdone⟩

/-- **An operand moves the current address and does nothing else.** -/
theorem context_of_evaluate (h : o.evaluate setting width c = .ok n c') :
    c' = c.advance (o.step width) := by
  unfold step
  cases hdirect : o.isDirect with
  | true =>
    rw [evaluate_of_direct hdirect] at h
    obtain ⟨-, rfl⟩ := EStateM.Result.ok.inj h
    exact c.advance_zero.symm
  | false =>
    obtain ⟨result, hdone⟩ := exists_of_evaluate hdirect h
    cases hadvances : o.advances with
    | true =>
      rw [hadvances] at hdone
      obtain ⟨-, rfl⟩ := EStateM.Result.ok.inj hdone
      rfl
    | false =>
      rw [hadvances] at hdone
      obtain ⟨-, rfl⟩ := EStateM.Result.ok.inj hdone
      exact c.advance_zero.symm

end Operand

/-- **The operands of an operation are read and evaluated**, one after the other. They have two values,
move the current address by so many bytes, and leave a rest of the script and a context. Operation 0
has one operand. -/
inductive TakesOperands (setting : Setting) (cs : List Char) (c : Context) :
    Nat → UInt16 → UInt16 → Nat → List Char → Context → Prop
  | one {o : Operand} {a : UInt16} {rest : List Char} {c₁ : Context}
      (hread : Operand.read cs = .ok (o, rest))
      (hevaluate : o.evaluate setting o.naturalWidth c = .ok a c₁) :
      TakesOperands setting cs c 0 a 0 (o.step o.naturalWidth) rest c₁
  | two {operation : Nat} {o o' : Operand} {a b : UInt16} {between rest : List Char}
      {c₁ c₂ : Context} (htwo : operation ≠ 0)
      (hread : Operand.read cs = .ok (o, between))
      (hevaluate : o.evaluate setting o.naturalWidth c = .ok a c₁)
      (hread' : Operand.read between = .ok (o', rest))
      (hevaluate' : o'.evaluate setting o'.naturalWidth c₁ = .ok b c₂) :
      TakesOperands setting cs c operation a b (o.step o.naturalWidth + o'.step o'.naturalWidth) rest
        c₂

variable {cs cs₁ cs₂ rest : List Char} {slot moved : Nat}

/-- All that operands do is to move the current address. -/
theorem TakesOperands.context_eq (h : TakesOperands setting cs c operation a b moved rest c') :
    c' = c.advance moved := by
  cases h with
  | one _ hevaluate => exact Operand.context_of_evaluate hevaluate
  | two _ _ hevaluate _ hevaluate' =>
    rw [Operand.context_of_evaluate hevaluate', Operand.context_of_evaluate hevaluate,
      Context.advance_advance]

theorem value_of_evaluate {o : Operand} (hread : Operand.read cs = .ok (o, rest))
    (hevaluate : o.evaluate setting o.naturalWidth c = .ok a c') :
    value setting cs c = .ok (a, rest) c' := by
  rw [value, hread, ofExcept_ok, pure_bind]
  dsimp only
  rw [bind_ok hevaluate]
  rfl

/-! ### Slots -/

/-- The number of a slot. -/
def Slot.number : Slot → Nat
  | .free i => i
  | .lineStart => 10
  | .lineCount => 11
  | .lineOffset => 12
  | .blockStart => 13
  | .blockEnd => 14
  | .current => 15

theorem Slot.number_ofNat : ∀ {n : Nat}, n < 16 → (ofNat n).number = n := by
  decide

/-- Different numbers below sixteen name different slots. -/
theorem Slot.ofNat_ne {m n : Nat} (hm : m < 16) (hn : n < 16) (h : m ≠ n) : ofNat m ≠ ofNat n := by
  intro heq
  rw [← number_ofNat hm, heq, number_ofNat hn] at h
  exact h rfl

namespace Context

theorem slot_store_self {s : Slot} (hs : s ≠ .current) (value : UInt16) :
    (c.store s value).slot s = value := by
  cases s with
  | free i => exact Vector.getElem_set_self _
  | current => exact absurd rfl hs
  | _ => rfl

/-- A slot other than the one that is stored to, and other than the current address, stays. -/
theorem slot_store_of_ne {s t : Slot} (h : t ≠ s) (ht : t ≠ .current) (value : UInt16) :
    (c.store s value).slot t = c.slot t := by
  cases s with
  | free i =>
    cases t with
    | free j =>
      have hij : i.val ≠ j.val := fun hij => h (congrArg Slot.free (Fin.ext hij.symm))
      exact Vector.getElem_set_ne i.isLt j.isLt hij
    | current => exact absurd rfl ht
    | _ => rfl
  | _ => cases t <;> simp_all [store, slot]

/-- Moving the current address moves slot 12. -/
theorem slot_advance {t : Nat} (ht : t < 15) (bytes : Nat) :
    (c.advance bytes).slot (.ofNat t) =
      if t = 12 then c.slot (.ofNat 12) + UInt16.ofNat bytes else c.slot (.ofNat t) := by
  split
  · rename_i h
    subst h
    rfl
  · rename_i h
    exact slot_store_of_ne (s := .lineOffset) (Slot.ofNat_ne (n := 12) (by omega) (by omega) h)
      (Slot.ofNat_ne (n := 15) (by omega) (by omega) (by omega)) _

/-- The slots that cannot be assigned to. -/
def readOnly : List Nat := [10, 11, 13, 15]

theorem assign_readOnly (h : slot ∈ readOnly) (value : UInt16) :
    c.assign (UInt8.ofNat slot) value = .error (.readOnlySlot (UInt8.ofNat slot)) := by
  simp only [readOnly, List.mem_cons, List.not_mem_nil, or_false] at h
  rcases h with rfl | rfl | rfl | rfl <;> rfl

/-- The slot that reads back what is assigned: the current address for slot 12. -/
def readBack (slot : Nat) : Nat := if slot = 12 then 15 else slot

/-- What is assigned goes into the cell of the slot: itself, or its offset from the line for slot 12. -/
theorem exists_assign_eq_store (hslot : slot < 16) (h : slot ∉ readOnly) (value : UInt16) :
    ∃ c', c.assign (UInt8.ofNat slot) value = .ok c' ∧ ∀ s, c'.slot s =
      (c.store (.ofNat slot) (if slot = 12 then value - c.lineStart else value)).slot s := by
  have hnumber : (UInt8.ofNat slot).toNat = slot :=
    UInt8.toNat_ofNat_of_lt (Nat.lt_trans hslot (by decide))
  have hlow : ¬16 ≤ UInt8.ofNat slot := by
    rw [UInt8.le_iff_toNat_le, hnumber]
    exact Nat.not_le.2 hslot
  unfold assign
  rw [if_neg hlow, hnumber]
  have hofNat := Slot.number_ofNat hslot
  cases hname : Slot.ofNat slot with
  | free i =>
    have hne : slot ≠ 12 := by
      rw [← hofNat, hname]
      exact Nat.ne_of_lt (Nat.lt_trans i.isLt (by omega))
    exact ⟨_, rfl, fun s => by rw [if_neg hne]⟩
  | lineOffset =>
    obtain rfl : slot = 12 := by rw [← hofNat, hname]; rfl
    exact ⟨_, rfl, fun s => rfl⟩
  | blockEnd =>
    obtain rfl : slot = 14 := by rw [← hofNat, hname]; rfl
    exact ⟨_, rfl, fun s => by cases s <;> rfl⟩
  | _ =>
    rw [hname] at hofNat
    exact absurd (by simp [← hofNat, Slot.number, readOnly]) h

/-- **A slot that is assigned to reads back as the value, and no other slot changes.** -/
theorem exists_assign (hslot : slot < 16) (h : slot ∉ readOnly) (value : UInt16) :
    ∃ c', c.assign (UInt8.ofNat slot) value = .ok c' ∧ c'.slot (.ofNat (readBack slot)) = value ∧
      ∀ t < 15, t ≠ slot → c'.slot (.ofNat t) = c.slot (.ofNat t) := by
  obtain ⟨c', hassign, hstore⟩ := c.exists_assign_eq_store hslot h value
  refine ⟨c', hassign, ?_, fun t ht hne => ?_⟩
  · unfold readBack
    rw [hstore]
    split
    · rename_i hoffset
      subst hoffset
      change c.lineStart + (value - c.lineStart) = value
      rw [UInt16.add_comm, UInt16.sub_add_cancel]
    · have hcurrent : slot ≠ 15 := fun heq => h (by simp [heq, readOnly])
      exact slot_store_self (Slot.ofNat_ne (n := 15) hslot (by omega) hcurrent) _
  · rw [hstore]
    exact slot_store_of_ne (Slot.ofNat_ne (by omega) hslot hne)
      (Slot.ofNat_ne (n := 15) (by omega) (by omega) (by omega)) _

end Context

/-! ### The construct -/

/-- An operation ends with the assignment of its result, or fails because it has none. -/
theorem arithmetic_eq (hoperation : Source.hex 1 cs = .ok (operation, cs₁))
    (hslot : Source.hex 1 cs₁ = .ok (slot, cs₂)) (hknown : operation ≤ 8)
    (htakes : TakesOperands setting cs₂ c operation a b moved rest c') :
    arithmetic setting cs c =
      match result? operation a b with
      | some result =>
        match c'.assign (UInt8.ofNat slot) result with
        | .ok c₂ => .ok rest c₂
        | .error kind => .error kind c'
      | none => .error .divisionByZero c' := by
  have hassign (result : UInt16) : (do
      Action.assign (UInt8.ofNat slot) result
      return rest : Action (List Char)) c' =
        match c'.assign (UInt8.ofNat slot) result with
        | .ok c₂ => .ok rest c₂
        | .error kind => .error kind c' := by
    rw [bind_apply, assign_apply]
    cases c'.assign (UInt8.ofNat slot) result <;> rfl
  unfold arithmetic
  rw [hoperation, ofExcept_ok, pure_bind]
  dsimp only
  rw [hslot, ofExcept_ok, pure_bind]
  dsimp only
  rw [if_neg (Nat.not_lt.2 hknown)]
  cases htakes with
  | one hread hevaluate =>
    rw [bind_ok (value_of_evaluate hread hevaluate)]
    dsimp only
    rw [if_pos rfl, hassign, result?, if_pos rfl]
  | two htwo hread hevaluate hread' hevaluate' =>
    rw [bind_ok (value_of_evaluate hread hevaluate)]
    dsimp only
    rw [if_neg htwo, bind_ok (value_of_evaluate hread' hevaluate')]
    dsimp only
    rw [result?, if_neg htwo]
    cases arithmeticResult? operation a b with
    | some result => exact hassign result
    | none => rfl

/-- **Script arithmetic is arithmetic modulo 65536, and reads back.** An operation that divides by zero
fails, whatever its slot. Any other can be computed in 32-bit words; it fails if its slot cannot be
assigned to, and otherwise the slot reads back as the low bits, which are those of the integer result.
Nothing else changes but the current address, by the operands. -/
theorem arithmetic_outcome (hoperation : Source.hex 1 cs = .ok (operation, cs₁))
    (hslot : Source.hex 1 cs₁ = .ok (slot, cs₂)) (hknown : operation ≤ 8)
    (htakes : TakesOperands setting cs₂ c operation a b moved rest c') :
    c' = c.advance moved ∧
    (DividesByZero operation b → arithmetic setting cs c = .error .divisionByZero c') ∧
    (¬DividesByZero operation b → ∃ w, result32? operation a.toUInt32 b.toUInt32 = some w ∧
      (w.toUInt16.toNat : Int) = integerResult operation a.toNat b.toNat % 0x10000 ∧
      (slot ∈ Context.readOnly →
        arithmetic setting cs c = .error (.readOnlySlot (UInt8.ofNat slot)) c') ∧
      (slot ∉ Context.readOnly → ∃ c₂, arithmetic setting cs c = .ok rest c₂ ∧
        c₂.slot (.ofNat (Context.readBack slot)) = w.toUInt16 ∧
        ∀ t < 15, t ≠ slot → c₂.slot (.ofNat t) =
          if t = 12 then c.slot (.ofNat 12) + UInt16.ofNat moved else c.slot (.ofNat t))) := by
  have hcontext := htakes.context_eq
  have heq := arithmetic_eq hoperation hslot hknown htakes
  refine ⟨hcontext, fun hdivisor => ?_, fun hdivisor => ?_⟩
  · rw [heq, result?_eq_none hdivisor]
  · obtain ⟨w, hw, hlow⟩ := exists_result32? (a := a) hdivisor
    rw [result?_eq_some hw] at heq
    dsimp only at heq
    refine ⟨w, hw, hlow, fun hreadOnly => ?_, fun hwritable => ?_⟩
    · rw [heq, Context.assign_readOnly hreadOnly]
    · obtain ⟨c₂, hassign, hback, hother⟩ :=
        c'.exists_assign (Source.hex_one_lt hslot) hwritable w.toUInt16
      refine ⟨c₂, by rw [heq, hassign], hback, fun t ht hne => ?_⟩
      rw [hother t ht hne, hcontext, Context.slot_advance ht]

/-- A zero byte is read and passed, slot 12 is subtracted, and slot 12 is assigned to: the current
address becomes -1, and slot 14 stays. -/
theorem arithmetic_outcome_sample :
    ∃ c₂, arithmetic byteSample ['2', 'C', '2', 'F', '8', 'C']
        (.start byteSample (.ofList []) ∅ 0x8000 0x8000) = .ok [] c₂ ∧
      (c₂.slot (.ofNat 15)).toNat = 0xFFFF ∧ c₂.slot (.ofNat 14) = 0x8000 := by
  have hoperation : Source.hex 1 ['2', 'C', '2', 'F', '8', 'C'] =
      .ok (2, ['C', '2', 'F', '8', 'C']) := rfl
  have hslot : Source.hex 1 ['C', '2', 'F', '8', 'C'] = .ok (12, ['2', 'F', '8', 'C']) := rfl
  have hread : Operand.read ['2', 'F', '8', 'C'] = .ok (⟨0x2F, none⟩, ['8', 'C']) := rfl
  have hread' : Operand.read ['8', 'C'] = .ok (⟨0x8C, none⟩, []) := rfl
  have htakes : TakesOperands byteSample ['2', 'F', '8', 'C']
      (.start byteSample (.ofList []) ∅ 0x8000 0x8000) 2 0 1 1 [] _ :=
    .two (by decide) hread rfl hread' rfl
  have hdivisor : ¬DividesByZero 2 1 := by
    unfold DividesByZero
    decide
  obtain ⟨w, -, hlow, -, hwritable⟩ :=
    (arithmetic_outcome hoperation hslot (by decide) htakes).2.2 hdivisor
  obtain ⟨c₂, hrun, hback, hother⟩ := hwritable (by decide)
  have hcurrent : c₂.slot (.ofNat 15) = w.toUInt16 := hback
  refine ⟨c₂, hrun, ?_, hother 14 (by decide) (by decide)⟩
  rw [← Int.ofNat_inj, hcurrent, hlow]
  rfl

end Script
end Disassembly
