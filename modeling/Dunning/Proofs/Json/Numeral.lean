import Dunning.Proofs.Json.Building
import Dunning.Proofs.Number.PlainText
import Dunning.Record.Codec
import Mathlib.Tactic.SplitIfs
import Mathlib.Tactic.Tauto

/-!
# Numbers that are read as themselves

The text of an integer of 64 bits is read as that integer. The text of a float is told from
that of an integer by its point or its exponent; whether the same float comes back is up to
the quick reading of its digits. A float whose text, read alone, gives the float again is
read as itself wherever its text stands.
-/
namespace Dunning

/-- The integers that documents keep: those of 64 bits, with or without a sign. -/
def Number.InRange : Number → Prop
  | .int i => -9223372036854775808 ≤ i ∧ i ≤ 18446744073709551615
  | .float _ => True

/-- A text is read when its document is, and nothing else is in it. -/
theorem Codec.parse_eq_ok_iff {α : Type} {codec : Codec α} {text : String} {a : α} :
    codec.parse text = .ok a ↔
      (Doc.parse text).2 = true ∧ codec.read .direct (Doc.parse text).1 = .ok a := by
  unfold Codec.parse
  obtain ⟨doc, clean⟩ := Doc.parse text
  cases hread : codec.read .direct doc with
  | error problem => simp [hread, bind, Except.bind]
  | ok value => cases clean <;> simp [hread, bind, Except.bind, pure, Except.pure]

/-- Whether the shortest text of a float is read as this float. -/
def Binary64.ReadsBack (x : Binary64) : Prop := Codec.float.parse (x.text .json) = .ok x

namespace Json

open Binary64 (signed)

/-- The draft of a number after more characters, if none of them ends or breaks it. -/
def NumberDraft.read? (draft : NumberDraft) : List Char → Option NumberDraft
  | [] => some draft
  | c :: cs => match draft.step c with
    | .more next => next.read? cs
    | _ => none

/-- The draft of a number whose text goes on to the end. -/
def readNumber? : List Char → Option NumberDraft
  | [] => none
  | c :: cs => if c = '-' ∨ c.isDigit then (NumberDraft.start c).read? cs else none

theorem NumberDraft.tokens_of_read? {draft next : NumberDraft} {cs : List Char}
    (h : draft.read? cs = some next) (rest : List Char) :
    (LexState.number draft).tokens (cs ++ rest) = (LexState.number next).tokens rest := by
  induction cs generalizing draft with
  | nil =>
    obtain rfl : draft = next := by simpa [read?] using h
    rfl
  | cons c cs ih =>
    rw [read?] at h
    split at h
    next after hstep =>
      rw [← ih h]
      simp [LexState.tokens, LexState.step, hstep]
    next => cases h

/-- A character that starts a number is neither blank nor a mark. -/
theorem start_number {c : Char} (h : c = '-' ∨ c.isDigit = true) :
    LexState.start c = (.number (.start c), []) := by
  have hother : ∀ d : Char, d ≠ '-' → d.isDigit = false → c ≠ d := by
    rintro d hminus hdigit rfl
    rcases h with h | h
    · exact hminus h
    · rw [hdigit] at h
      cases h
  have hmarks : [' ', '\t', '\n', '\r', '[', ']', '{', '}', ',', ':', '"', 'n', 't', 'f'].all
      (fun d => d != '-' && !d.isDigit) = true := by decide
  have hne : ∀ d ∈ [' ', '\t', '\n', '\r', '[', ']', '{', '}', ',', ':', '"', 'n', 't', 'f'],
      c ≠ d := by
    intro d hd
    have hmark := List.all_eq_true.1 hmarks d hd
    simp only [Bool.and_eq_true, bne_iff_ne, Bool.not_eq_eq_eq_not, Bool.not_true] at hmark
    exact hother d hmark.1 hmark.2
  simp only [List.forall_mem_cons] at hne
  unfold LexState.start
  simp [hne, h]

theorem tokens_of_readNumber? {draft : NumberDraft} {cs : List Char}
    (h : readNumber? cs = some draft) (rest : List Char) :
    LexState.between.tokens (cs ++ rest) = (LexState.number draft).tokens rest := by
  cases cs with
  | nil => cases h
  | cons c cs =>
    simp only [readNumber?] at h
    split_ifs at h with hstart
    rw [← NumberDraft.tokens_of_read? h]
    simp [LexState.tokens, LexState.step, start_number hstart]

/-! ## Digits -/

/-- The digits of a text of digits. -/
def digitsOf (cs : List Char) : List Nat := cs.map fun c => c.toNat - 48

theorem foldl_digitsOf (cs : List Char) :
    (digitsOf cs).foldl (fun n d => n * 10 + d) 0 = Nat.ofDigitChars 10 cs 0 := by
  rw [digitsOf, List.foldl_map, Nat.ofDigitChars_eq_foldl]
  simp [Nat.mul_comm]

/-- Digits are gathered one after the other in a part of a number that each of them goes on with. -/
theorem NumberDraft.read?_digits (gathered : List Nat → NumberDraft)
    (more : ∀ digits c, c.isDigit = true →
      (gathered digits).step c = .more (gathered ((c.toNat - 48) :: digits)))
    {cs : List Char} (h : ∀ c ∈ cs, c.isDigit = true) (digits : List Nat) :
    (gathered digits).read? cs = some (gathered ((digitsOf cs).reverse ++ digits)) := by
  induction cs generalizing digits with
  | nil => rfl
  | cons c cs ih =>
    rw [read?, more digits c (h c List.mem_cons_self)]
    have hcs := ih (fun d hd => h d (List.mem_cons_of_mem c hd)) ((c.toNat - 48) :: digits)
    simp [hcs, digitsOf]

theorem NumberDraft.read?_append (draft : NumberDraft) (cs ds : List Char) :
    draft.read? (cs ++ ds) = (draft.read? cs).bind fun next => next.read? ds := by
  induction cs generalizing draft with
  | nil => rfl
  | cons c cs ih =>
    rw [List.cons_append, read?, read?]
    split
    · exact ih _
    · rfl

/-- The digits of a number in front of a point: none is in front of others but zero. -/
def Leads (whole : List Char) : Prop :=
  (∀ c ∈ whole, c.isDigit = true) ∧ (whole = ['0'] ∨ ∃ c cs, whole = c :: cs ∧ c ≠ '0')

/-- The draft of a number in front of its point. -/
def leadingDraft (negative : Bool) (whole : List Char) : NumberDraft :=
  ⟨if whole = ['0'] then .leadingZero else .whole, negative, (digitsOf whole).reverse, [], false, []⟩

theorem readNumber?_signed (negative : Bool) {whole : List Char} (h : Leads whole)
    (rest : List Char) :
    readNumber? (signed negative (whole ++ rest)) = (leadingDraft negative whole).read? rest := by
  obtain ⟨hdigits, rfl | ⟨c, cs, rfl, hzero⟩⟩ := h
  · cases negative <;> rfl
  · have hc := hdigits c List.mem_cons_self
    have hminus : c ≠ '-' := by
      rintro rfl
      cases hc
    have hread := NumberDraft.read?_digits (fun read => ⟨.whole, negative, read, [], false, []⟩)
      (fun read d hd => by simp [NumberDraft.step, hd])
      (fun d hd => hdigits d (List.mem_cons_of_mem c hd)) [c.toNat - 48]
    have hne : c :: cs ≠ ['0'] := by simp [hzero]
    have hdraft : leadingDraft negative (c :: cs) =
        ⟨.whole, negative, (digitsOf cs).reverse ++ [c.toNat - 48], [], false, []⟩ := by
      simp [leadingDraft, hne, digitsOf]
    cases negative with
    | false =>
      simp [signed, readNumber?, hc, NumberDraft.start, hminus, hzero, NumberDraft.read?_append, hread,
        hdraft]
    | true =>
      have hstart : NumberDraft.start '-' = ⟨.sign, true, [], [], false, []⟩ := rfl
      simp [signed, readNumber?, hstart, NumberDraft.read?, NumberDraft.step, hzero, hc,
        NumberDraft.read?_append, hread, hdraft]

theorem leads_zero : Leads ['0'] := ⟨List.forall_mem_singleton.2 rfl, .inl rfl⟩

theorem toDigits_eq_cons {n : Nat} (h : 0 < n) : ∃ c cs, Nat.toDigits 10 n = c :: cs ∧ c ≠ '0' := by
  induction n using Nat.strongRecOn with
  | ind n ih =>
    by_cases hsmall : n < 10
    · have hzero : n.digitChar ≠ '0' := fun hn => by
        rw [Nat.digitChar_eq_zero] at hn
        omega
      exact ⟨n.digitChar, [], Nat.toDigits_of_lt_base hsmall, hzero⟩
    · obtain ⟨c, cs, hdigits, hc⟩ := ih (n / 10) (by omega) (by omega)
      refine ⟨c, cs ++ [(n % 10).digitChar], ?_, hc⟩
      rw [Nat.toDigits_of_base_le (by decide) (by omega), hdigits, List.cons_append]

theorem leads_toDigits_append {n : Nat} (hn : 0 < n) {more : List Char}
    (hmore : ∀ c ∈ more, c.isDigit = true) : Leads (Nat.toDigits 10 n ++ more) := by
  refine ⟨fun c hc => (List.mem_append.1 hc).elim Decimal.isDigit_of_mem_toDigits (hmore c), .inr ?_⟩
  obtain ⟨c, cs, heq, hc⟩ := toDigits_eq_cons hn
  exact ⟨c, cs ++ more, by rw [heq, List.cons_append], hc⟩

theorem leads_toDigits (n : Nat) : Leads (Nat.toDigits 10 n) := by
  rcases Nat.eq_zero_or_pos n with rfl | hpos
  · exact leads_zero
  · have hleads := leads_toDigits_append hpos (List.forall_mem_nil _)
    rwa [List.append_nil] at hleads

theorem le_foldl_digits (digits : List Nat) (s : Nat) :
    s ≤ digits.foldl (fun n d => n * 10 + d) s := by
  induction digits generalizing s with
  | nil => exact Nat.le_refl s
  | cons d ds ih => exact Nat.le_trans (by omega) (ih (s * 10 + d))

/-- A number that fits into a significand is gathered as a whole. -/
theorem gather_eq {digits : List Nat} {s : Nat}
    (h : digits.foldl (fun n d => n * 10 + d) s ≤ NumberLiteral.significandMax) :
    NumberLiteral.gather s digits = (digits.foldl (fun n d => n * 10 + d) s, digits.length) := by
  induction digits generalizing s with
  | nil => rfl
  | cons d ds ih =>
    have hfits : ¬NumberLiteral.significandMax < s * 10 + d :=
      Nat.not_lt.2 (Nat.le_trans (le_foldl_digits ds _) h)
    rw [NumberLiteral.gather, if_neg hfits, ih h]
    rfl

theorem Numeral.ofRead {cs : List Char} {draft : NumberDraft} {n : Number}
    (hread : readNumber? cs = some draft) (complete : draft.complete = true)
    (value : draft.literal.value = some n) : Numeral cs n :=
  ⟨draft, complete, value, tokens_of_readNumber? hread⟩

/-! ## Integers -/

/-- An integer is written as the digits of its magnitude behind its sign. -/
theorem toList_numberText (i : Int) : (numberText (.int i)).toList =
    signed (i < 0) (Nat.toDigits 10 i.natAbs) := by
  by_cases h : i < 0 <;> simp [numberText, signed, Decimal.digitText, h]

/-- Digits alone are an integer of the sign in front of them, if its magnitude is in range. -/
theorem value_leadingDraft {i : Int} (h : (Number.int i).InRange) :
    (leadingDraft (i < 0) (Nat.toDigits 10 i.natAbs)).literal.value = some (.int i) := by
  obtain ⟨hlow, hhigh⟩ := h
  have hmax : i.natAbs ≤ NumberLiteral.significandMax := by
    rw [NumberLiteral.significandMax]
    omega
  have hdigits : (digitsOf (Nat.toDigits 10 i.natAbs)).foldl (fun n d => n * 10 + d) 0 = i.natAbs := by
    rw [foldl_digitsOf, Nat.ofDigitChars_ten_toDigits]
  have hgather : NumberLiteral.gather 0 (digitsOf (Nat.toDigits 10 i.natAbs)) =
      (i.natAbs, (digitsOf (Nat.toDigits 10 i.natAbs)).length) := by
    rw [gather_eq (hdigits.symm ▸ hmax), hdigits]
  by_cases hneg : i < 0
  · have hfits : 0 < i.natAbs ∧ i.natAbs ≤ 9223372036854775808 := by omega
    simp [NumberLiteral.value, NumberDraft.literal, leadingDraft, hgather, hneg, hfits, abs_of_neg hneg]
  · have habs := abs_of_nonneg (Int.not_lt.1 hneg)
    simp [NumberLiteral.value, NumberDraft.literal, leadingDraft, hgather, hneg, habs]

/-- An integer of 64 bits is read as itself. -/
theorem numeral_int {i : Int} (h : (Number.int i).InRange) :
    Numeral (numberText (.int i)).toList (.int i) := by
  have hread := readNumber?_signed (i < 0) (leads_toDigits i.natAbs) []
  rw [List.append_nil, ← toList_numberText] at hread
  have hcomplete : (leadingDraft (i < 0) (Nat.toDigits 10 i.natAbs)).complete = true := by
    unfold leadingDraft
    split_ifs <;> rfl
  exact .ofRead hread hcomplete (value_leadingDraft h)

/-! ## Floats -/

/-- The characters of the texts of floats. -/
def isNumeric (c : Char) : Bool := c.isDigit || c == '-' || c == '+' || c == '.' || c == 'e'

theorem tokens_number_eq_cons (draft : NumberDraft) (cs : List Char) :
    ∃ t ts, (LexState.number draft).tokens cs = t :: ts ∧ t ≠ .endOfText := by
  induction cs generalizing draft with
  | nil =>
    rw [LexState.tokens, LexState.finish]
    split <;> exact ⟨_, _, rfl, by simp⟩
  | cons c cs ih =>
    cases hstep : draft.step c with
    | more next =>
      obtain ⟨t, ts, htokens, ht⟩ := ih next
      exact ⟨t, ts, by simpa [LexState.tokens, LexState.step, hstep] using htokens, ht⟩
    | failed => simp [LexState.tokens, LexState.step, hstep, LexState.breakOff]
    | ended => simp [LexState.tokens, LexState.step, hstep]

/-- The other characters of a number start nothing. -/
theorem start_numeric {c : Char} (h : isNumeric c = true) (hstart : ¬(c = '-' ∨ c.isDigit = true)) :
    LexState.start c = (.stopped, [.stray]) := by
  obtain ⟨hminus, hdigit⟩ := not_or.1 hstart
  have hrest : c = '+' ∨ c = '.' ∨ c = 'e' := by
    simpa [isNumeric, hminus, hdigit, or_assoc] using h
  rcases hrest with rfl | rfl | rfl <;> rfl

end Json

namespace Doc.Builder

/-- What is built when the text holds more than one document, or breaks. -/
def Spoilt : Builder → Prop
  | trailing _ => True
  | broken _ => True
  | _ => False

theorem Spoilt.finish {b : Builder} (h : b.Spoilt) (ts : List Json.Token) :
    (ts.foldl step b).finish.2 = false := by
  induction ts generalizing b with
  | nil =>
    cases b with
    | trailing | broken => rfl
    | _ => exact h.elim
  | cons t ts ih =>
    refine ih ?_
    cases b with
    | trailing | broken => trivial
    | _ => exact h.elim

theorem step_complete_spoilt (doc : Doc) {t : Json.Token} (h : t ≠ .endOfText) :
    (step (complete doc) t).Spoilt := by
  cases t with
  | endOfText => exact absurd rfl h
  | _ => trivial

end Doc.Builder

namespace Json

open Doc (Builder)

/-- A text of these characters that is a document as a whole is one number. -/
theorem NumberDraft.exists_read? {cs : List Char} (h : ∀ c ∈ cs, isNumeric c = true)
    (draft : NumberDraft)
    (clean : (((LexState.number draft).tokens cs).foldl Builder.step (.value [])).finish.2 = true) :
    ∃ next, draft.read? cs = some next := by
  induction cs generalizing draft with
  | nil => exact ⟨draft, rfl⟩
  | cons c cs ih =>
    rw [read?]
    cases hstep : draft.step c with
    | more next =>
      refine ih (fun d hd => h d (List.mem_cons_of_mem c hd)) next ?_
      simpa [LexState.tokens, LexState.step, hstep] using clean
    | failed =>
      have hbroken : (Builder.broken (.flaw .badNumber)).Spoilt := trivial
      have htokens : (LexState.number draft).tokens (c :: cs) =
          .broken .badNumber :: LexState.stopped.tokens cs := by
        simp [LexState.tokens, LexState.step, hstep, LexState.breakOff]
      rw [htokens, List.foldl_cons] at clean
      exact absurd clean (Bool.eq_false_iff.1 (hbroken.finish _))
    | ended =>
      -- The number is finished here, and what is behind it is too much.
      have htokens : (LexState.number draft).tokens (c :: cs) =
          .number draft.literal.value :: LexState.between.tokens (c :: cs) := by
        simp [LexState.tokens, LexState.step, hstep]
      have hmore : ∃ t ts, LexState.between.tokens (c :: cs) = t :: ts ∧ t ≠ .endOfText := by
        by_cases hstart : c = '-' ∨ c.isDigit = true
        · obtain ⟨t, ts, hts, ht⟩ := tokens_number_eq_cons (.start c) cs
          exact ⟨t, ts, by simpa [LexState.tokens, LexState.step, start_number hstart] using hts, ht⟩
        · simp [LexState.tokens, LexState.step, start_numeric (h c List.mem_cons_self) hstart]
      obtain ⟨t, ts, hts, ht⟩ := hmore
      have hcomplete : ∃ doc, Builder.step (.value []) (.number draft.literal.value) =
          .complete doc := by
        cases draft.literal.value <;> exact ⟨_, rfl⟩
      obtain ⟨doc, hdoc⟩ := hcomplete
      rw [htokens, hts, List.foldl_cons, List.foldl_cons, hdoc] at clean
      exact absurd clean (Bool.eq_false_iff.1 ((Builder.step_complete_spoilt doc ht).finish ts))

theorem exists_readNumber? {text : String} (h : ∀ c ∈ text.toList, isNumeric c = true)
    (clean : (Doc.parse text).2 = true) : ∃ draft, readNumber? text.toList = some draft := by
  rw [Doc.parse_eq] at clean
  generalize text.toList = cs at h clean ⊢
  cases cs with
  | nil => cases clean
  | cons c cs =>
    have hcs : ∀ d ∈ cs, isNumeric d = true := fun d hd => h d (List.mem_cons_of_mem c hd)
    by_cases hstart : c = '-' ∨ c.isDigit = true
    · simp only [readNumber?, if_pos hstart]
      refine NumberDraft.exists_read? hcs _ ?_
      simpa [LexState.tokens, LexState.step, start_number hstart] using clean
    · have hbroken : (Builder.broken (.flaw .noValue)).Spoilt := trivial
      have htokens : LexState.between.tokens (c :: cs) = .stray :: LexState.stopped.tokens cs := by
        simp [LexState.tokens, LexState.step, start_numeric (h c List.mem_cons_self) hstart]
      rw [htokens, List.foldl_cons] at clean
      exact absurd clean (Bool.eq_false_iff.1 (hbroken.finish _))

/-- Whether a point or an exponent has been read. -/
def NumberDraft.Fractional (draft : NumberDraft) : Prop :=
  draft.part = .point ∨ draft.part = .mark ∨ draft.part = .markSign ∨ draft.fraction ≠ [] ∨
    draft.exponent ≠ []

theorem NumberDraft.step_fractional {draft next : NumberDraft} {c : Char}
    (hstep : draft.step c = .more next) (h : draft.Fractional ∨ c = '.' ∨ c = 'e') :
    next.Fractional := by
  have hdigit : c.isDigit = true → c ≠ '.' ∧ c ≠ 'e' := by
    intro hdigit
    constructor <;> rintro rfl <;> cases hdigit
  obtain ⟨part, negative, whole, fraction, exponentNegative, exponent⟩ := draft
  cases part <;> simp only [step] at hstep <;> split_ifs at hstep <;> cases hstep <;>
    simp_all [Fractional]

theorem NumberDraft.read?_fractional {draft next : NumberDraft} {cs : List Char}
    (hread : draft.read? cs = some next) (h : draft.Fractional ∨ '.' ∈ cs ∨ 'e' ∈ cs) :
    next.Fractional := by
  induction cs generalizing draft with
  | nil =>
    obtain rfl : draft = next := by simpa [read?] using hread
    simpa using h
  | cons c cs ih =>
    rw [read?] at hread
    split at hread
    next after hstep =>
      refine ih hread ?_
      by_cases hnow : draft.Fractional ∨ c = '.' ∨ c = 'e'
      · exact .inl (step_fractional hstep hnow)
      · refine .inr ?_
        simp only [List.mem_cons, eq_comm] at h hnow
        tauto
    next => cases hread

theorem readNumber?_fractional {cs : List Char} {draft : NumberDraft}
    (hread : readNumber? cs = some draft) (hmark : '.' ∈ cs ∨ 'e' ∈ cs) : draft.Fractional := by
  cases cs with
  | nil => cases hread
  | cons c cs =>
    simp only [readNumber?] at hread
    split_ifs at hread with hstart
    have hpoint : '.' ≠ c := by
      rintro rfl
      revert hstart
      decide
    have he : 'e' ≠ c := by
      rintro rfl
      revert hstart
      decide
    refine NumberDraft.read?_fractional hread (.inr ?_)
    simpa [hpoint, he] using hmark

/-- A literal with fraction digits or an exponent is a float. -/
theorem exists_float_of_value {l : NumberLiteral} (h : l.fraction ≠ [] ∨ l.exponent ≠ none)
    {n : Number} (value : l.value = some n) : ∃ x, n = .float x := by
  have hnot : ¬(l.fraction.isEmpty = true ∧ l.exponent.isNone = true ∧
      l.whole.length - (NumberLiteral.gather 0 l.whole).2 = 0) := by
    rintro ⟨hfraction, hexponent, -⟩
    rcases h with h | h
    · exact h (List.isEmpty_iff.1 hfraction)
    · exact h (Option.isNone_iff_eq_none.1 hexponent)
  simp only [NumberLiteral.value] at value
  rw [if_neg hnot] at value
  obtain ⟨x, -, hx⟩ := Option.map_eq_some_iff.1 value
  exact ⟨x, hx.symm⟩

theorem NumberDraft.Fractional.literal {draft : NumberDraft} (h : draft.Fractional)
    (complete : draft.complete = true) :
    draft.literal.fraction ≠ [] ∨ draft.literal.exponent ≠ none := by
  obtain ⟨part, negative, whole, fraction, exponentNegative, exponent⟩ := draft
  have hparts : fraction ≠ [] ∨ exponent ≠ [] := by
    cases part with
    | point | mark | markSign => cases complete
    | sign | leadingZero | whole | fraction | exponent => simpa [Fractional] using h
  simpa [NumberDraft.literal] using hparts

theorem isNumeric_of_mem_toDigits {n : Nat} {c : Char} (h : c ∈ Nat.toDigits 10 n) :
    isNumeric c = true := by
  simp [isNumeric, Nat.isDigit_of_mem_toDigits (by decide) (by decide) h]

theorem isNumeric_of_mem_replicate {n : Nat} {c : Char} (h : c ∈ List.replicate n '0') :
    isNumeric c = true := by
  rw [List.eq_of_mem_replicate h]
  rfl

/-- Positional notation has a point, scientific notation has an exponent. -/
theorem isNumeric_positionalText (d : Decimal) :
    (∀ c ∈ (d.positionalText ".0").toList, isNumeric c = true) ∧
      '.' ∈ (d.positionalText ".0").toList := by
  unfold Decimal.positionalText
  split_ifs with hwhole
  · simp only [String.toList_append, String.toList_ofList, List.mem_append]
    refine ⟨?_, .inr (by decide)⟩
    rintro c ((hc | hc) | hc)
    · exact isNumeric_of_mem_toDigits hc
    · exact isNumeric_of_mem_replicate hc
    · exact List.all_eq_true.1 (by decide) c hc
  · simp only
    generalize hpadded : List.replicate
      (d.exponent.natAbs + 1 - (Nat.toDigits 10 d.digits).length) '0' ++ Nat.toDigits 10 d.digits = padded
    have hpadded : ∀ c ∈ padded, isNumeric c = true := by
      intro c hc
      rw [← hpadded] at hc
      rcases List.mem_append.1 hc with hc | hc
      · exact isNumeric_of_mem_replicate hc
      · exact isNumeric_of_mem_toDigits hc
    simp only [String.toList_append, String.toList_ofList, List.mem_append]
    refine ⟨?_, .inl (.inr (by decide))⟩
    rintro c ((hc | hc) | hc)
    · exact hpadded c (List.mem_of_mem_take hc)
    · exact List.all_eq_true.1 (by decide) c hc
    · exact hpadded c (List.mem_of_mem_drop hc)

theorem isNumeric_scientificText (d : Decimal) :
    (∀ c ∈ d.scientificText.toList, isNumeric c = true) ∧ 'e' ∈ d.scientificText.toList := by
  simp only [Decimal.scientificText, Decimal.digitText, String.toList_append, String.toList_ofList,
    List.mem_append]
  refine ⟨?_, .inl (.inl (.inr (by decide)))⟩
  rintro c (((((hc | hc) | hc) | hc) | hc) | hc)
  · exact isNumeric_of_mem_toDigits (List.mem_of_mem_take hc)
  · split_ifs at hc <;> exact List.all_eq_true.1 (by decide) c hc
  · exact isNumeric_of_mem_toDigits (List.mem_of_mem_drop hc)
  · exact List.all_eq_true.1 (by decide) c hc
  · split_ifs at hc <;> exact List.all_eq_true.1 (by decide) c hc
  · exact isNumeric_of_mem_toDigits hc

theorem isNumeric_text (x : Binary64) : (∀ c ∈ (x.text .json).toList, isNumeric c = true) ∧
    ('.' ∈ (x.text .json).toList ∨ 'e' ∈ (x.text .json).toList) := by
  have hdecimal : ∀ d : Decimal, (∀ c ∈ (d.text .json).toList, isNumeric c = true) ∧
      ('.' ∈ (d.text .json).toList ∨ 'e' ∈ (d.text .json).toList) := by
    intro d
    simp only [Decimal.text, NumberLayout.json]
    split_ifs
    · exact (isNumeric_positionalText d).imp_right .inl
    · exact (isNumeric_scientificText d).imp_right .inr
  have hsign : ∀ c ∈ (if x.negative then "-" else "").toList, isNumeric c = true := by
    split_ifs <;> exact List.all_eq_true.1 (by decide)
  obtain ⟨hall, hmark⟩ := hdecimal (if x.units = 0 then ⟨0, 0⟩ else Decimal.shortest .even x.units)
  simp only [Binary64.text, String.toList_append, List.mem_append]
  refine ⟨?_, hmark.imp .inr .inr⟩
  rintro c (hc | hc)
  · exact hsign c hc
  · exact hall c hc

/-- A float whose text is read as this float is read as itself in every document. -/
theorem numeral_float {x : Binary64} (h : x.ReadsBack) :
    Numeral (numberText (.float x)).toList (.float x) := by
  obtain ⟨hnumeric, hmark⟩ := isNumeric_text x
  obtain ⟨hclean, hread⟩ := Codec.parse_eq_ok_iff.1 h
  obtain ⟨draft, hdraft⟩ := exists_readNumber? hnumeric hclean
  have htokens : Json.LexState.between.tokens (x.text .json).toList = (LexState.number draft).finish := by
    have hrest := tokens_of_readNumber? hdraft []
    rwa [List.append_nil] at hrest
  have hcomplete : draft.complete = true := by
    rw [← Bool.not_eq_false]
    intro hincomplete
    rw [Doc.parse_eq, htokens, LexState.finish, if_neg (by simp [hincomplete])] at hclean
    cases hclean
  have hparse : Doc.parse (x.text .json) =
      (draft.literal.value.elim (.flaw .hugeNumber) .number, true) := by
    rw [Doc.parse_eq, htokens, LexState.finish, if_pos hcomplete]
    cases draft.literal.value <;> rfl
  have hliteral := (readNumber?_fractional hdraft hmark).literal hcomplete
  refine .ofRead hdraft hcomplete ?_
  cases hvalue : draft.literal.value with
  | none =>
    rw [hparse, hvalue] at hread
    cases hread
  | some n =>
    obtain ⟨y, rfl⟩ := exists_float_of_value hliteral hvalue
    rw [hparse, hvalue] at hread
    cases hread
    rfl

/-- Every number that is in range, or a float that is read back, is read as itself. -/
theorem numeral {n : Number} (inRange : n.InRange) (floats : ∀ x, n = .float x → x.ReadsBack) :
    Numeral (numberText n).toList n := by
  cases n with
  | int i => exact numeral_int inRange
  | float x => exact numeral_float (floats x rfl)

end Json

end Dunning
