import Mathlib.Data.List.Forall2
import Mathlib.Logic.Function.Basic
import Scriptlet.Proofs.Parse.Places
import Scriptlet.Proofs.Parse.Sequel.Program
import Scriptlet.Proofs.Token.Seam

/-!
# Texts with a semicolon between them

Texts that are programs, put into one text with a semicolon and a newline between each and the next,
are one program: up to places its statements are those of the texts, one after the other. Only the
last of the texts may end inside a comment, for a comment would take the semicolon in.
-/

namespace Scriptlet

/-! ## Tokens of the same kinds -/

/-- Tokens of the same kinds differ by a map of their places, if no two of them stand at one. -/
theorem exists_place {ts us : List Token} (hnodup : (ts.map Token.location).Nodup)
    (hkinds : us.map Token.kind = ts.map Token.kind) :
    ∃ place : Location → Location, us = ts.map fun t ↦ ⟨t.kind, place t.location⟩ := by
  induction ts generalizing us with
  | nil => exact ⟨id, List.map_eq_nil_iff.mp hkinds⟩
  | cons t ts ih =>
    cases us with
    | nil => cases hkinds
    | cons u us =>
      obtain ⟨hkind, hkinds⟩ := List.cons.inj hkinds
      obtain ⟨hnew, hnodup⟩ := List.nodup_cons.mp hnodup
      obtain ⟨place, rfl⟩ := ih hnodup hkinds
      refine ⟨Function.update place t.location u.location, ?_⟩
      rw [List.map_cons, Function.update_self, ← hkind]
      refine congrArg (u :: ·) (List.map_congr_left fun t' ht' ↦ ?_)
      have hne : t'.location ≠ t.location := by
        rintro heq
        exact hnew (heq ▸ List.mem_map_of_mem ht')
      rw [Function.update_of_ne hne]

theorem Sequel.exists_onto {ts us tail : List Token} (hnodup : (ts.map Token.location).Nodup)
    (hkinds : us.map Token.kind = ts.map Token.kind)
    (ends : Parse.kindOf tail = .eof ∨ Parse.kindOf tail = .symbol .semicolon)
    (noElse : Parse.kindOf (Parse.skipTerminators tail) ≠ .word "else") :
    ∃ S : Sequel, S.tail = tail ∧ S.onto ts = us ++ tail := by
  obtain ⟨place, rfl⟩ := exists_place hnodup hkinds
  exact ⟨⟨place, tail, ends, noElse⟩, rfl, Sequel.onto_eq _ ts⟩

/-! ## Programs -/

namespace Reader

variable {r : Reader} {p q : Program} {fin : Location}

theorem program_nil (fin : Location) : program ⟨[], fin⟩ = .ok [] := by
  rw [program]
  rfl

/-- A program does not begin with an `else`. -/
theorem kindOf_of_program (h : r.program = .ok p) :
    Parse.kindOf (Parse.skipTerminators r.tokens) ≠ .word "else" := by
  intro helse
  obtain ⟨l, us, hs⟩ := eq_cons_of_kindOf helse (by simp)
  have hskip : r.skipTerminators = ⟨⟨.word "else", l⟩ :: us, r.fin⟩ := congrArg (mk · r.fin) hs
  have hfail : statementHere ⟨⟨.word "else", l⟩ :: us, r.fin⟩
      = .fail (.strayElse l) (⟨.word "else", l⟩ :: us) := rfl
  rw [program_eq, hskip, if_neg (List.cons_ne_nil _ us), programHere, hfail] at h
  cases h

/-- The tokens of a program at other places, and a tail behind them that is a program as well. -/
theorem program_append {us tail : List Token} (h : r.program = .ok p)
    (hnodup : (r.tokens.map Token.location).Nodup)
    (hkinds : us.map Token.kind = r.tokens.map Token.kind)
    (ends : Parse.kindOf tail = .eof ∨ Parse.kindOf tail = .symbol .semicolon)
    (htail : program ⟨tail, fin⟩ = .ok q) :
    Uses r.tokens [] ∧ ∃ p', program ⟨us ++ tail, fin⟩ = .ok (p' ++ q)
      ∧ statementsWithoutPlaces p' = statementsWithoutPlaces p := by
  obtain ⟨S, rfl, honto⟩ := Sequel.exists_onto hnodup hkinds ends (kindOf_of_program htail)
  exact honto ▸ program_onto h htail

end Reader

theorem nodup_ofText (source : String) :
    ((Reader.ofText source).tokens.map Token.location).Nodup :=
  Cursor.places_nodup _

/-- There are no bad tokens in a program. -/
theorem good_of_parseProgram {source : String} {p : Program} (h : parseProgram source = .ok p) :
    ∀ t ∈ (Reader.ofText source).tokens, ∀ c, t.kind ≠ .bad c := by
  obtain ⟨⟨used, hused, hgood⟩, -⟩ := Reader.program_append h (nodup_ofText source) rfl (.inl rfl)
    (Reader.program_nil .start)
  rw [hused, List.append_nil]
  exact hgood

/-- The text ends inside a comment. -/
def endsInComment (source : String) : Bool := (Cursor.ofText source).endsInComment

theorem statementsWithoutPlaces_eq_map (sts : List Statement) :
    statementsWithoutPlaces sts = sts.map Statement.withoutPlaces := by
  induction sts with
  | nil => rfl
  | cons st sts ih => rw [statementsWithoutPlaces, ih, List.map_cons]

/-- The tokens of texts that are programs, with semicolons between them. The induction is on the
texts before the last one; what stands behind a text is a program, so it does not begin with an
`else`. -/
theorem program_of_kinds {texts : List String} {parts : List Program} {last : String}
    {own : Program} (htexts : List.Forall₂ (fun text p ↦ parseProgram text = .ok p) texts parts)
    (hcomment : ∀ text ∈ texts, endsInComment text = false) (hlast : parseProgram last = .ok own)
    {ts : List Token} {fin : Location}
    (hts : ts.map Token.kind = kinds (";\n".intercalate (texts ++ [last])).toList) :
    ∃ all, Reader.program ⟨ts, fin⟩ = .ok all
      ∧ statementsWithoutPlaces all = statementsWithoutPlaces (parts.flatten ++ own) := by
  induction htexts generalizing ts with
  | nil =>
    obtain ⟨-, p', hp', hsame⟩ := Reader.program_append hlast (nodup_ofText last) hts (.inl rfl)
      (Reader.program_nil fin)
    rw [List.append_nil, List.append_nil] at hp'
    exact ⟨p', hp', hsame⟩
  | @cons text p texts parts hp htexts ih =>
    obtain ⟨hclosed, hcomment⟩ := List.forall_mem_cons.mp hcomment
    have hstring : .bad '\x60' ∉ kinds text.toList := by
      intro hmem
      obtain ⟨t, ht, hkind⟩ := List.mem_map.mp hmem
      exact good_of_parseProgram hp t ht _ hkind
    rw [List.cons_append, String.toList_intercalate, List.map_cons,
      List.intercalate_cons_of_ne_nil (by simp), ← String.toList_intercalate, List.append_assoc]
      at hts
    have hseam := hts.trans (kinds_seam hstring hclosed)
    -- the tokens of the text, the semicolon, and those of the other texts
    obtain ⟨us, rest, rfl, hus, hrest⟩ := List.map_eq_append_iff.mp hseam
    obtain ⟨⟨k, l⟩, tail, rfl, hk, htail⟩ := List.map_eq_cons_iff.mp hrest
    obtain rfl : k = .symbol .semicolon := hk
    obtain ⟨all, hall, hsame⟩ := ih hcomment htail
    have hbehind : Reader.program ⟨⟨.symbol .semicolon, l⟩ :: tail, fin⟩ = .ok all :=
      (Reader.program_congr (Parse.skipTerminators_semicolon l tail)).trans hall
    obtain ⟨-, p', hp', hsame'⟩ :=
      Reader.program_append hp (nodup_ofText text) hus (.inr rfl) hbehind
    refine ⟨p' ++ all, hp', ?_⟩
    simp only [statementsWithoutPlaces_eq_map, List.map_append, List.flatten_cons,
      List.append_assoc] at hsame hsame' ⊢
    rw [hsame', hsame]

/-- Programs in one text, with a semicolon and a newline between each and the next, are one
program. -/
theorem parseProgram_intercalate {texts : List String} {parts : List Program} {last : String}
    {own : Program} (htexts : List.Forall₂ (fun text p ↦ parseProgram text = .ok p) texts parts)
    (hcomment : ∀ text ∈ texts, endsInComment text = false)
    (hlast : parseProgram last = .ok own) :
    ∃ all, parseProgram (";\n".intercalate (texts ++ [last])) = .ok all
      ∧ statementsWithoutPlaces all = statementsWithoutPlaces (parts.flatten ++ own) :=
  program_of_kinds htexts hcomment hlast rfl

end Scriptlet
