import Mathlib
import TapeMachine.Proofs.Scan
import TapeMachine.Proofs.Utf8
import TapeMachine.Service.Routing

/-!
# Numbers in queries

A query is cut into fields, its percent signs and plus signs are resolved, and the text that is left is
read as an integer, in a way that forgives much. A name and a number that are written without any of this
come out as they were put in.

## What is proved

* `Query.value?_of_isPlain`: a field of plain characters has the value that was written.
* `IntegerText.read_toString`: a written integer is read as it was, if it has at most 4300 digits.
* `queriedScript_toString`: hence a query can ask for each script that a store can name.
-/

namespace TapeMachine.Service

/-! ### Fields -/

namespace Query

/-- A character that stands for itself in a name or a value. -/
def isPlain (c : Char) : Bool := c.toNat < 128 && c ∉ ['%', '+', '&', '=']

section Plain

variable {cs : List Char}

theorem isPlain_iff {c : Char} :
    isPlain c = true ↔ c.toNat < 128 ∧ c ≠ '%' ∧ c ≠ '+' ∧ c ≠ '&' ∧ c ≠ '=' := by
  simp [isPlain]

theorem isPlain_of_isDigit {c : Char} (h : c.isDigit = true) : isPlain c = true := by
  rw [isPlain_iff]
  refine ⟨?_, ?_, ?_, ?_, ?_⟩
  · have hrange : 48 ≤ c.toNat ∧ c.toNat ≤ 57 := by
      simpa [Char.isDigit, UInt32.le_iff_toNat_le] using h
    omega
  all_goals
    rintro rfl
    cases h

theorem arriving_ofList (h : ∀ c ∈ cs, c.toNat < 128) : arriving (String.ofList cs) = cs := by
  simp only [arriving, Text.Utf8.encode, String.toList_ofList]
  induction cs with
  | nil => rfl
  | cons c cs ih =>
    have hc := h c List.mem_cons_self
    rw [List.flatMap_cons, List.map_append, ih fun d hd => h d (List.mem_cons_of_mem c hd),
      Text.Utf8.utf8EncodeChar_of_lt hc, List.map_singleton, Text.Utf8.toNat_ofNat_of_lt (by omega),
      Char.ofNat_toNat, List.singleton_append]

theorem decodeBytes_of_isPlain (h : ∀ c ∈ cs, isPlain c = true) :
    decodeBytes cs = cs.flatMap String.utf8EncodeChar := by
  induction cs with
  | nil => rfl
  | cons c cs ih =>
    obtain ⟨-, hpercent, hplus, -, -⟩ := isPlain_iff.1 (h c List.mem_cons_self)
    rw [decodeBytes.eq_3 c cs (fun _ _ _ heq => absurd heq hpercent) hplus, List.flatMap_cons,
      ih fun d hd => h d (List.mem_cons_of_mem c hd)]

theorem decodeFrom_of_lt (run : List Char) (h : ∀ c ∈ cs, c.toNat < 128) :
    decodeFrom run cs = decodeRun (run.reverse ++ cs) := by
  induction cs generalizing run with
  | nil => rw [decodeFrom, List.append_nil]
  | cons c cs ih =>
    rw [decodeFrom, if_pos (h c List.mem_cons_self), ih _ fun d hd => h d (List.mem_cons_of_mem c hd),
      List.reverse_cons, List.append_assoc, List.singleton_append]

/-- A part of plain characters stands for itself. -/
theorem decodePart_of_isPlain (h : ∀ c ∈ cs, isPlain c = true) : decodePart cs = String.ofList cs := by
  have hrun : decodeRun cs = cs := by
    have hlossy := Text.Utf8.decodeLossy_encode (String.ofList cs)
    rw [Text.Utf8.encode, String.toList_ofList] at hlossy
    rw [decodeRun, decodeBytes_of_isPlain h, hlossy, String.toList_ofList]
  rw [decodePart, decodeFrom_of_lt [] fun c hc => (isPlain_iff.1 (h c hc)).1, List.reverse_nil,
    List.nil_append, hrun]

end Plain

/-- **A field of plain characters has the value that was written.** -/
theorem value?_of_isPlain {name value : String} (hname : ∀ c ∈ name.toList, isPlain c = true)
    (hvalue : ∀ c ∈ value.toList, isPlain c = true) :
    value? (name ++ "=" ++ value) name = some value := by
  have hplain : ∀ c ∈ name.toList ++ '=' :: value.toList, c.toNat < 128 ∧ c ≠ '&' := by
    intro c hc
    rcases List.mem_append.1 hc with hc | hc
    · obtain ⟨hlt, -, -, hand, -⟩ := isPlain_iff.1 (hname c hc)
      exact ⟨hlt, hand⟩
    · rcases List.mem_cons.1 hc with rfl | hc
      · decide
      · obtain ⟨hlt, -, -, hand, -⟩ := isPlain_iff.1 (hvalue c hc)
        exact ⟨hlt, hand⟩
  have harriving : arriving (name ++ "=" ++ value) = name.toList ++ '=' :: value.toList := by
    rw [← arriving_ofList fun c hc => (hplain c hc).1]
    congr 1
    apply String.toList_inj.1
    simp
  have hpieces : Text.pieces '&' (name.toList ++ '=' :: value.toList) =
      [name.toList ++ '=' :: value.toList] := by
    rw [Text.pieces_eq_splitOn]
    refine List.splitOnP_eq_singleton fun c hc => ?_
    simpa using (hplain c hc).2
  have hne : ∀ c ∈ name.toList, (c != '=') = true := by
    intro c hc
    obtain ⟨-, -, -, -, heq⟩ := isPlain_iff.1 (hname c hc)
    simpa using heq
  have hfield : field (name.toList ++ '=' :: value.toList) = (name, value) := by
    rw [field, List.takeWhile_append_of_pos hne, List.dropWhile_append_of_pos hne,
      List.takeWhile_cons_of_neg (by decide), List.dropWhile_cons_of_neg (by decide),
      List.append_nil, List.drop_one, List.tail_cons, decodePart_of_isPlain hname,
      decodePart_of_isPlain hvalue, String.ofList_toList, String.ofList_toList]
  rw [value?, fields, harriving, hpieces, List.filter_cons_of_pos (by simp), List.filter_nil,
    List.map_singleton, hfield, List.reverse_singleton, List.lookup_cons_self]

end Query

/-! ### Integers -/

namespace IntegerText

/-- A number other than zero is written without a leading zero. -/
theorem exists_leads_toDigits {n : Nat} (h : n ≠ 0) :
    ∃ c cs, Nat.toDigits 10 n = c :: cs ∧ leads c = true := by
  induction n using Nat.strong_induction_on with
  | _ n ih =>
    by_cases hlt : n < 10
    · refine ⟨n.digitChar, [], Nat.toDigits_of_lt_base hlt, ?_⟩
      interval_cases n
      · exact absurd rfl h
      all_goals decide
    · obtain ⟨c, cs, hdigits, hleads⟩ := ih (n / 10) (by omega) (by omega)
      refine ⟨c, cs ++ [(n % 10).digitChar], ?_, hleads⟩
      rw [Nat.toDigits_of_base_le (by decide) (by omega), hdigits, List.cons_append]

theorem readDigits_toDigits (negative : Bool) {n : Nat} (h : n < 10 ^ Text.maxLiteralDigits) :
    readDigits negative (Nat.toDigits 10 n) = .ok (Text.signed negative n) := by
  by_cases hn : n = 0
  · subst hn
    cases negative <;> rfl
  · have hdigits : (Nat.toDigits 10 n).takeWhile Char.isDigit = Nat.toDigits 10 n := by
      rw [List.takeWhile_eq_self_iff]
      exact fun c hc => Nat.isDigit_of_mem_toDigits (by decide) (by decide) hc
    have hlength : (Nat.toDigits 10 n).length ≤ Text.maxLiteralDigits :=
      (Nat.length_toDigits_le_iff (by decide) (by decide)).2 h
    have hvalue : valueOf (Nat.toDigits 10 n) = n := Nat.ofDigitChars_ten_toDigits
    obtain ⟨c, cs, hcs, hleads⟩ := exists_leads_toDigits hn
    rw [hcs] at hdigits hlength hvalue ⊢
    have hzero : c = '0' → cs = [] → False := by
      rintro rfl -
      cases hleads
    rw [readDigits.eq_2 negative c cs hzero, if_pos hleads]
    simp only [hdigits, if_neg (Nat.not_lt.2 hlength), if_true, hvalue]

theorem toList_toString (i : Int) :
    (toString i).toList = (if i < 0 then ['-'] else []) ++ Nat.toDigits 10 i.natAbs := by
  cases i with
  | ofNat n =>
    have hlist : (toString (Int.ofNat n)).toList = Nat.toDigits 10 n := Nat.toList_repr
    rw [hlist, if_neg (show ¬ Int.ofNat n < 0 by simp)]
    rfl
  | negSucc n =>
    have htext : toString (Int.negSucc n) = "-" ++ (n + 1).repr := rfl
    rw [htext, String.toList_append, Nat.toList_repr, if_pos (Int.negSucc_lt_zero n)]
    rfl

theorem isPlain_of_mem_toString {i : Int} {c : Char} (h : c ∈ (toString i).toList) :
    Query.isPlain c = true := by
  rw [toList_toString] at h
  rcases List.mem_append.1 h with hc | hc
  · split at hc
    · rw [List.mem_singleton.1 hc]
      decide
    · cases hc
  · exact Query.isPlain_of_isDigit (Nat.isDigit_of_mem_toDigits (by decide) (by decide) hc)

/-- **A written integer is read as it was**, if it does not have too many digits. -/
theorem read_toString {i : Int} (h : i.natAbs < 10 ^ Text.maxLiteralDigits) :
    read (toString i) = .ok i := by
  have hplain : readPlain (toString i).toList = .ok i := by
    rw [toList_toString]
    by_cases hi : i < 0
    · rw [if_pos hi, List.singleton_append, readPlain, readDigits_toDigits true h, Text.signed, if_pos rfl]
      congr 1
      omega
    · -- no digit is a minus
      have hminus : ∀ cs, Nat.toDigits 10 i.natAbs ≠ '-' :: cs := by
        intro cs hcs
        have hdigit : '-'.isDigit = true := by
          refine Nat.isDigit_of_mem_toDigits (b := 10) (n := i.natAbs) (by decide) (by decide) ?_
          rw [hcs]
          exact List.mem_cons_self
        cases hdigit
      rw [if_neg hi, List.nil_append, readPlain.eq_2 _ hminus, readDigits_toDigits false h, Text.signed]
      congr 1
      simp only [Bool.false_eq_true, if_false]
      omega
  rw [read, hplain]

end IntegerText

/-! ### Scripts -/

/-- **A query can ask for each script that a store can name.** -/
theorem queriedScript_toString {k : Int} (h : Datum.fits k) :
    queriedScript ("script_id=" ++ toString k) = .ok (some k) := by
  have hvalue : Query.value? ("script_id" ++ "=" ++ toString k) "script_id" = some (toString k) :=
    Query.value?_of_isPlain (by simp [Query.isPlain]) fun c hc => IntegerText.isPlain_of_mem_toString hc
  have hlt : k.natAbs < 10 ^ Text.maxLiteralDigits := by
    have hrange : k.natAbs < 10 ^ 20 := by
      have hpower : (Number.powerOfTwo 63 : Int) = 2 ^ 63 := rfl
      rw [Datum.fits, hpower, Bool.and_eq_true, decide_eq_true_eq, decide_eq_true_eq] at h
      omega
    exact hrange.trans_le (Nat.pow_le_pow_right (by decide) (by decide))
  have hread : readParameter "query" (toString k) = .ok k := by
    rw [readParameter, spelledInteger, IntegerText.read_toString hlt]
  have hquery : "script_id=" ++ toString k = "script_id" ++ "=" ++ toString k := rfl
  rw [queriedScript, hquery, hvalue]
  dsimp only
  rw [hread]
  rfl

end TapeMachine.Service
