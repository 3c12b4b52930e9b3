import Scriptlet.Proofs.Binary.Rounding
import Scriptlet.Token.Scan

/-!
# What the scanner can produce

Not every value of the token type comes from a text: a whole number that is written is never
negative, a double has its one significand, a string holds no backtick, and a word is a letter with
word characters behind it.
-/

namespace Scriptlet

/-- A letter, and behind it characters that continue a name. -/
def IsWord (w : String) : Prop :=
  ∃ c cs, w = String.ofList (c :: cs) ∧ Text.isLetter c ∧ ∀ d ∈ cs, Text.isWordChar d

/-- The token can stand for a piece of text. -/
def TokenKind.Scanned : TokenKind → Prop
  | .number (.int n) => 0 ≤ n.toInt
  | .number (.double x) => x.Canonical
  | .str s => '\x60' ∉ s.toList
  | .word w => IsWord w
  | _ => True

/-- All of the tokens can stand for pieces of text. -/
def AllScanned (ts : List Token) : Prop := ∀ t ∈ ts, t.kind.Scanned

theorem AllScanned.head {t : Token} {ts : List Token} (h : AllScanned (t :: ts)) :
    t.kind.Scanned :=
  h t List.mem_cons_self

theorem AllScanned.tail {t : Token} {ts : List Token} (h : AllScanned (t :: ts)) : AllScanned ts :=
  fun u hu ↦ h u (List.mem_cons_of_mem _ hu)

/-! ## Numbers -/

theorem Whole.toInt_of_ofInt? {i : Int} {n : Int64} (h : Whole.ofInt? i = some n) :
    n.toInt = i := by
  rw [Whole.ofInt?] at h
  split at h
  · rename_i hi
    obtain rfl := Option.some.inj h
    simp only [Whole.least, Whole.greatest] at hi
    exact Int64.toInt_ofInt_of_le (by omega) (by omega)
  · cases h

theorem Whole.nonneg_of_ofDigits? {base : Nat} {ds : List Char} {n : Int64}
    (h : Whole.ofDigits? base ds = some n) : 0 ≤ n.toInt := by
  rw [Whole.ofDigits?] at h
  split at h
  · cases h
  · rw [Whole.toInt_of_ofInt? h]
    exact Int.natCast_nonneg _

theorem scanned_radixNumber (base : Nat) (ds : List Char) :
    (TokenKind.number (radixNumber base ds)).Scanned := by
  rw [radixNumber]
  split
  · rename_i n hn
    exact Whole.nonneg_of_ofDigits? hn
  · trivial

/-- The number that a text writes as a double has its one significand. -/
theorem scanned_double (text : List Char) :
    (TokenKind.number (.double ((Binary.ofText? text).getD (.nan false)))).Scanned := by
  cases hx : (Binary.ofText? text : Option Double) with
  | none => trivial
  | some x => exact Binary.canonical_ofText? Binary.double_proper hx

theorem scanned_decimalNumber (whole fraction exponent : List Char) :
    (TokenKind.number (decimalNumber whole fraction exponent)).Scanned := by
  rw [decimalNumber]
  split
  · split
    · rename_i n hn
      exact Whole.nonneg_of_ofDigits? hn
    · exact scanned_double _
  · exact scanned_double _

theorem scanned_readNumber (c : Char) (cs : List Char) :
    (TokenKind.number (readNumber c cs).1).Scanned := by
  have hdecimal : (TokenKind.number (readDecimal (c :: cs)).1).Scanned := scanned_decimalNumber ..
  unfold readNumber
  split
  · split
    · split
      · exact scanned_radixNumber ..
      · split
        · exact scanned_radixNumber ..
        · exact hdecimal
    · exact hdecimal
  · exact hdecimal

/-! ## The other tokens -/

theorem scanned_readString (cs : List Char) : (readString cs).1.Scanned := by
  rw [readString]
  split
  · trivial
  · intro hmem
    rw [String.toList_ofList] at hmem
    simpa using List.all_eq_true.mp List.all_takeWhile _ hmem

theorem scanned_readSymbol (c : Char) (cs : List Char) : (readSymbol c cs).1.Scanned := by
  rw [readSymbol]
  split
  · split <;> trivial
  · split <;> trivial

theorem scanned_readToken (c : Char) (cs : List Char) : (readToken c cs).1.Scanned := by
  rw [readToken]
  split
  · exact scanned_readNumber c cs
  · split
    · rename_i hletter
      exact ⟨c, _, rfl, hletter, List.all_eq_true.mp List.all_takeWhile⟩
    · split
      · exact scanned_readString cs
      · exact scanned_readSymbol c cs

theorem Cursor.scanned_of_next? {c c' : Cursor} {t : Token} (h : c.next? = some (t, c')) :
    t.kind.Scanned := by
  simp only [next?] at h
  split at h
  · cases h
  · obtain ⟨rfl, -⟩ := Prod.mk.inj (Option.some.inj h)
    exact scanned_readToken ..

/-- Every token of a text is one that can be scanned. -/
theorem Cursor.allScanned_tokens (c : Cursor) : AllScanned c.tokens.1 := by
  fun_induction Cursor.tokens c with
  | case1 => exact fun t ht ↦ absurd ht List.not_mem_nil
  | case2 c t c' h _ more ih =>
    exact List.forall_mem_cons.mpr ⟨scanned_of_next? h, ih⟩

end Scriptlet
