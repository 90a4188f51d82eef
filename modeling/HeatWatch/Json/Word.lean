import HeatWatch.Json.Shape

/-!
# Shapes of words

The whole numbers of the models: words of 64 and 32 bits. A number is read only when its kind
holds it, so the word keeps it unchanged.
-/

namespace HeatWatch.Json

open Decimal.Whole (Kind)

def i64 : WholeType Int64 := ⟨Kind.i64, Int64.ofInt⟩
def i32 : WholeType Int32 := ⟨Kind.i32, Int32.ofInt⟩
def u32 : WholeType UInt32 := ⟨Kind.u32, fun n => UInt32.ofNat n.toNat⟩

/-- A whole number with a type of its own around it. -/
def WholeType.as {α β : Type} (t : WholeType α) (f : α → β) : WholeType β :=
  ⟨t.kind, fun n => f (t.ofInt n)⟩

theorem toInt_ofInt_i64 {n : Int} (h : Kind.i64.Holds n) : (i64.ofInt n).toInt = n :=
  Int64.toInt_ofInt_of_le h.1 (Int.lt_of_le_sub_one h.2)

theorem toInt_ofInt_i32 {n : Int} (h : Kind.i32.Holds n) : (i32.ofInt n).toInt = n :=
  Int32.toInt_ofInt_of_le h.1 (Int.lt_of_le_sub_one h.2)

theorem toNat_ofInt_u32 {n : Int} (h : Kind.u32.Holds n) : ((u32.ofInt n).toNat : Int) = n := by
  have h' : (0 : Int) ≤ n ∧ n ≤ 4294967295 := h
  simp only [u32, UInt32.toNat_ofNat']
  omega

end HeatWatch.Json
