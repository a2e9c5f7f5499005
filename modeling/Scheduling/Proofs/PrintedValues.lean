import Mathlib.Tactic.SplitIfs
import Scheduling.Json.Record
import Scheduling.Proofs.Digits
/-!
# Printed values are read back

A reader of single values gives back what was printed, whatever stands behind it as long as it does
not go on from a number. A record is read back from its members if each of them fills a field: the
names then belong to different fields, and the values are read into one record after the other.
-/

namespace Scheduling.Json

/-- A number goes on with a digit, a point or an exponent. -/
def extendsNumber (c : Char) : Bool := c.isDigit || c = '.' || c = 'e' || c = 'E'

/-- A reader reads the text of a value as something and leaves what stands behind it. -/
def Reads {α : Type} (read : Reader α) (j : Json) (a : α) : Prop :=
  ∀ rest, Clear extendsNumber rest → read (j.print ++ rest) = .ok (a, rest)

theorem Reads.map {α β : Type} {read : Reader α} {j : Json} {a : α} (h : Reads read j a)
    (f : α → β) : Reads (fun s => (read s).map fun (a, rest) => (f a, rest)) j (f a) := by
  intro rest hrest
  dsimp only
  rw [h rest hrest]
  rfl

theorem skipBlanks_cons {c : Char} (hc : isBlank c = false) (s : List Char) :
    skipBlanks (c :: s) = c :: s := dropWhile_of_clear (clear_cons.2 hc)

/-! ## Texts -/

section Texts

variable {before s rest : List Char} {c : Char}

theorem hexValue?_hexDigit : ∀ n < 16, hexValue? (hexDigit n) = some n := by decide

theorem hexQuad?_hexDigit {n : Nat} (h : n < 32) :
    hexQuad? '0' '0' (hexDigit (n / 16)) (hexDigit (n % 16)) = some n := by
  have hzero : hexValue? '0' = some 0 := by decide
  simp only [hexQuad?, hzero, hexValue?_hexDigit (n / 16) (by omega),
    hexValue?_hexDigit (n % 16) (by omega), Option.bind_eq_bind, Option.bind_some, Option.pure_def,
    Option.some.injEq]
  omega

theorem readEscape_control (h : c.toNat < 32) (rest : List Char) :
    readEscape ('u' :: '0' :: '0' :: hexDigit (c.toNat / 16) :: hexDigit (c.toNat % 16) :: rest) =
      .ok (c, rest) := by
  have hread : readHex ('0' :: '0' :: hexDigit (c.toNat / 16) :: hexDigit (c.toNat % 16) :: rest) =
      .ok (c.toNat, rest) := by
    rw [readHex, hexQuad?_hexDigit h]
  simp only [readEscape, hread, bind, Except.bind]
  rw [if_neg (by omega), if_neg (by omega), Char.ofNat_toNat]

theorem readTextFrom_backslash (h : readEscape s = .ok (c, rest)) :
    readTextFrom before ('\\' :: s) = readTextFrom (c :: before) rest := by
  rw [readTextFrom]
  split
  · rename_i heq
    rw [h] at heq
    cases heq
    rfl
  · rename_i heq
    rw [h] at heq
    cases heq

/-- A character is read back from the way it stands between quotes. -/
theorem readTextFrom_escape (before : List Char) (c : Char) (rest : List Char) :
    readTextFrom before (escape c ++ rest) = readTextFrom (c :: before) rest := by
  unfold escape
  split_ifs with hquote hbackslash hfeed htab hreturn hback hform hcontrol
  · subst hquote
    exact readTextFrom_backslash rfl
  · subst hbackslash
    exact readTextFrom_backslash rfl
  · subst hfeed
    exact readTextFrom_backslash rfl
  · subst htab
    exact readTextFrom_backslash rfl
  · subst hreturn
    exact readTextFrom_backslash rfl
  · obtain rfl : c = '\x08' := Char.toNat_inj.1 hback
    exact readTextFrom_backslash rfl
  · obtain rfl : c = '\x0c' := Char.toNat_inj.1 hform
    exact readTextFrom_backslash rfl
  · exact readTextFrom_backslash (readEscape_control hcontrol rest)
  · rw [List.cons_append, List.nil_append, readTextFrom, if_neg hcontrol]
    · exact hquote
    · exact hbackslash

theorem readTextFrom_append (before cs rest : List Char) :
    readTextFrom before (cs.flatMap escape ++ '"' :: rest) =
      .ok (String.ofList (before.reverse ++ cs), rest) := by
  induction cs generalizing before with
  | nil => rw [List.flatMap_nil, List.nil_append, readTextFrom, List.append_nil]
  | cons c cs ih =>
      rw [List.flatMap_cons, List.append_assoc, readTextFrom_escape, ih, List.reverse_cons,
        List.append_assoc, List.singleton_append]

/-- Any text is read back from its characters up to the closing quote. -/
theorem readTextFrom_quoted (text : String) (rest : List Char) :
    readTextFrom [] (text.toList.flatMap escape ++ '"' :: rest) = .ok (text, rest) := by
  rw [readTextFrom_append, List.reverse_nil, List.nil_append, String.ofList_toList]

theorem quote_append (text : String) (rest : List Char) :
    quote text ++ rest = '"' :: (text.toList.flatMap escape ++ '"' :: rest) := by
  rw [quote, List.append_assoc, List.cons_append, List.singleton_append]

theorem reads_text (expected text : String) : Reads (readText expected) (.string text) text := by
  intro rest _
  rw [print, quote_append, readText, skipBlanks_cons rfl]
  exact readTextFrom_quoted text rest

end Texts

/-! ## Truth values -/

theorem reads_bool (b : Bool) : Reads readBool (.bool b) b := by
  intro rest _
  cases b <;> rfl

/-! ## Numbers -/

section Numbers

variable {n limit : Nat} {ds rest : List Char}

theorem le_ofDigitChars (n : Nat) (ds : List Char) : n ≤ Nat.ofDigitChars 10 ds n := by
  induction ds generalizing n with
  | nil => exact Nat.le_refl n
  | cons c ds ih =>
      rw [Nat.ofDigitChars_cons]
      exact Nat.le_trans (by omega) (ih _)

/-- Digits are all taken if the number that they write is within the limit. -/
theorem Numeral.absorb_eq (h : Nat.ofDigitChars 10 ds n ≤ limit) :
    absorb limit n ds = (Nat.ofDigitChars 10 ds n, []) := by
  induction ds generalizing n with
  | nil => rfl
  | cons c ds ih =>
      rw [Nat.ofDigitChars_cons] at h ⊢
      have hle : 10 * n + digitValue c ≤ limit := Nat.le_trans (le_ofDigitChars _ ds) h
      rw [absorb, if_pos hle]
      exact ih h

/-- Only zero is written with a zero in front. -/
theorem toDigits_ne_zero_cons (n : Nat) (d : Char) (ds : List Char) :
    Nat.toDigits 10 n ≠ '0' :: d :: ds := by
  induction n using Nat.strongRecOn generalizing d ds with
  | ind n ih =>
      intro h
      by_cases hn : n < 10
      · rw [Nat.toDigits_of_lt_base hn] at h
        exact absurd (List.cons.inj h).2.symm (List.cons_ne_nil d ds)
      · rw [Nat.toDigits_of_base_le (by decide) (by omega)] at h
        obtain ⟨c, cs, hdigits, -⟩ := exists_toDigits_eq_cons (n / 10)
        rw [hdigits, List.cons_append] at h
        obtain rfl : c = '0' := List.head_eq_of_cons_eq h
        cases cs with
        | cons c' cs => exact ih (n / 10) (by omega) c' cs hdigits
        | nil =>
            have hzero := ofDigitChars_toDigits (n / 10)
            rw [hdigits] at hzero
            have hzero : 0 = n / 10 := hzero
            omega

theorem Numeral.readExponent_of_clear (atEnd : Fault) (m : Numeral)
    (hrest : Clear extendsNumber rest) : readExponent atEnd m rest = .ok (m, rest) := by
  cases rest with
  | nil => rfl
  | cons c rest =>
      have hc := clear_cons.1 hrest
      simp only [extendsNumber, Bool.or_eq_false_iff] at hc
      rw [readExponent, hc.1.2, hc.2]
      rfl

theorem Numeral.readFraction_of_clear (atEnd : Fault) (m : Numeral)
    (hrest : Clear extendsNumber rest) : readFraction atEnd m rest = .ok (m, rest) := by
  unfold readFraction
  split
  · cases clear_cons.1 hrest
  · exact readExponent_of_clear atEnd m hrest

theorem Numeral.read_toDigits (atEnd : Fault) (n : Nat) (hrest : Clear extendsNumber rest) :
    Numeral.read atEnd (Nat.toDigits 10 n ++ rest) =
      .ok (⟨false, Nat.toDigits 10 n, none, none⟩, rest) := by
  have hdigit : Clear Char.isDigit rest := fun c hc => by
    have hclear := hrest c hc
    simp only [extendsNumber, Bool.or_eq_false_iff] at hclear
    exact hclear.1.1.1
  have hsplit : digits (Nat.toDigits 10 n ++ rest) = (Nat.toDigits 10 n, rest) := by
    rw [digits, takeWhile_toDigits n hdigit, dropWhile_toDigits n hdigit]
  have hunsigned : read atEnd (Nat.toDigits 10 n ++ rest) =
      readUnsigned atEnd false (Nat.toDigits 10 n ++ rest) := by
    obtain ⟨c, cs, hdigits, hc⟩ := exists_toDigits_eq_cons n
    rw [hdigits, List.cons_append]
    unfold read
    split
    · rename_i heq
      cases heq
      cases hc
    · rfl
  rw [hunsigned, readUnsigned, hsplit]
  split
  · rename_i heq
    exact absurd (Prod.mk.inj heq).1 Nat.toDigits_ne_nil
  · rename_i heq
    exact absurd (Prod.mk.inj heq).1 Nat.toDigits_ne_nil
  · rename_i heq
    exact absurd (Prod.mk.inj heq).1 (toDigits_ne_zero_cons n _ _)
  · rename_i heq
    cases heq
    exact readFraction_of_clear atEnd _ hrest

theorem readNumber_toDigits (hn : n ≤ Numeral.greatest) (hrest : Clear extendsNumber rest) :
    readNumber (Nat.toDigits 10 n ++ rest) = .ok (.integer n, rest) := by
  have hvalue : Numeral.value ⟨false, Nat.toDigits 10 n, none, none⟩ rest = .ok (.integer n) := by
    have habsorb : Numeral.absorb Numeral.greatest 0 (Nat.toDigits 10 n) = _ :=
      Numeral.absorb_eq (Nat.le_trans (Nat.le_of_eq (ofDigitChars_toDigits n)) hn)
    rw [ofDigitChars_toDigits] at habsorb
    rw [Numeral.value, habsorb]
    rfl
  simp only [readNumber, Numeral.read_toDigits _ n hrest, hvalue, bind, Except.bind]
  rfl

theorem isBlank_of_isDigit {c : Char} (h : c.isDigit = true) : isBlank c = false := by
  refine Bool.eq_false_iff.2 fun hblank => ?_
  simp only [isBlank, Bool.or_eq_true, decide_eq_true_eq] at hblank
  obtain ((rfl | rfl) | rfl) | rfl := hblank <;> cases h

/-- A number that its type can hold is read back. -/
theorem reads_nat (width : Width) (hwidth : width.greatest ≤ Numeral.greatest)
    (hn : n ≤ width.greatest) : Reads (readNat width) (.integer n) n := by
  intro rest hrest
  have hprint : print (.integer n) = Nat.toDigits 10 n := toList_toString n
  obtain ⟨c, cs, hdigits, hc⟩ := exists_toDigits_eq_cons n
  have hnumber := readNumber_toDigits (Nat.le_trans hn hwidth) hrest
  rw [hprint]
  rw [hdigits, List.cons_append] at hnumber ⊢
  rw [readNat, skipBlanks_cons (isBlank_of_isDigit hc)]
  dsimp only
  rw [if_pos (Or.inr hc), hnumber]
  dsimp only
  rw [if_pos ⟨Int.natCast_nonneg n, Int.ofNat_le.2 hn⟩, Int.toNat_natCast]

end Numbers

/-! ## Optional values -/

/-- What stands at the front of `null`, or before it. -/
def opensNull (c : Char) : Bool := isBlank c || c = 'n'

theorem reads_some {α : Type} {read : Reader α} {j : Json} {a : α} (h : Reads read j a)
    (hj : ∀ rest, Clear opensNull (j.print ++ rest)) : Reads (readOption read) j (some a) := by
  intro rest hrest
  have hclear := hj rest
  have hread := h rest hrest
  have hskip : skipBlanks (j.print ++ rest) = j.print ++ rest := dropWhile_of_clear fun c hc =>
    (Bool.or_eq_false_iff.1 (hclear c hc)).1
  rw [readOption, hskip]
  split
  · rename_i heq
    rw [heq] at hclear
    cases clear_cons.1 hclear
  · rw [hread]
    rfl

theorem clear_printed_nat (n : Nat) (rest : List Char) :
    Clear opensNull (print (.integer n) ++ rest) := by
  have hprint : print (.integer n) = Nat.toDigits 10 n := toList_toString n
  rw [hprint]
  refine clear_toDigits (fun c hc => ?_) n rest
  refine Bool.or_eq_false_iff.2 ⟨isBlank_of_isDigit hc, decide_eq_false ?_⟩
  rintro rfl
  cases hc

/-! ## Records -/

/-- The members of an object, in front of which others stand or none. -/
def laterMembers : Bool → List (String × Json) → List Char
  | true, members => printMembers members
  | false, [] => ['}']
  | false, member :: members => ',' :: printMembers (member :: members)

theorem printMembers_cons (name : String) (value : Json) (members : List (String × Json)) :
    printMembers ((name, value) :: members) =
      quote name ++ ':' :: (print value ++ laterMembers false members) := by
  cases members with
  | nil => rw [printMembers, laterMembers]
  | cons member members => rw [printMembers, laterMembers]; exact List.cons_ne_nil _ _

theorem length_le_printMembers (members : List (String × Json)) :
    members.length ≤ (printMembers members).length := by
  induction members with
  | nil => exact Nat.zero_le _
  | cons member members ih =>
      obtain ⟨name, value⟩ := member
      have hlater : (printMembers members).length ≤ (laterMembers false members).length := by
        cases members with
        | nil => exact Nat.le_refl _
        | cons => exact Nat.le_succ _
      rw [printMembers_cons]
      simp only [List.length_append, List.length_cons]
      omega

theorem clear_laterMembers (members : List (String × Json)) (rest : List Char) :
    Clear extendsNumber (laterMembers false members ++ rest) := by
  cases members <;> exact clear_cons.2 rfl

namespace Schema

/-- Members fill fields of a record, one after the other. -/
inductive Fills {α : Type} (m : Schema α) : α → List (String × Json) → α → Prop
  | none (a : α) : Fills m a [] a
  | member {a a' final : α} {name : String} {j : Json} {members : List (String × Json)}
      {slot : Slot α} (slot_eq : m.slots.find? (·.name == name) = some slot)
      (read : Reads (slot.read a) j a') (rest : Fills m a' members final) :
      Fills m a ((name, j) :: members) final

variable {α : Type} {m : Schema α} {name : String} {a a' final : α}
  {members later : List (String × Json)} {seen : List String}

theorem Fills.append (h : Fills m a members a') (hlater : Fills m a' later final) :
    Fills m a (members ++ later) final := by
  induction h with
  | none a => exact hlater
  | member slot_eq read _ ih => exact .member slot_eq read (ih hlater)

theorem Fills.single {slot : Slot α} {j : Json} (hslot : m.slots.find? (·.name == name) = some slot)
    (hread : Reads (slot.read a) j a') : Fills m a [(name, j)] a' :=
  .member hslot hread (.none a')

theorem nextKey_later_nil (first : Bool) (rest : List Char) :
    nextKey first (laterMembers first [] ++ rest) = .ok (.closed rest) := by
  cases first <;> rfl

theorem nextKey_later_cons (first : Bool) (name : String) (j : Json) (rest : List Char) :
    nextKey first (laterMembers first ((name, j) :: members) ++ rest) =
      .ok (.part (name.toList.flatMap escape ++
        '"' :: ':' :: (j.print ++ (laterMembers false members ++ rest)))) := by
  have hprint : printMembers ((name, j) :: members) ++ rest =
      '"' :: (name.toList.flatMap escape ++
        '"' :: ':' :: (j.print ++ (laterMembers false members ++ rest))) := by
    rw [printMembers_cons, List.append_assoc, quote_append, List.cons_append, List.append_assoc]
  cases first with
  | true =>
      rw [laterMembers, hprint]
      rfl
  | false =>
      rw [laterMembers, List.cons_append, hprint]
      rfl

theorem readMember_filled {slot : Slot α} {j : Json}
    (hslot : m.slots.find? (·.name == name) = some slot) (hread : Reads (slot.read a) j a')
    (hseen : name ∉ seen) {rest : List Char} (hrest : Clear extendsNumber rest) :
    m.readMember seen a (name.toList.flatMap escape ++ '"' :: ':' :: (j.print ++ rest)) =
      .ok (name :: seen, a', rest) := by
  have hcolon : readColon (':' :: (j.print ++ rest)) = .ok (j.print ++ rest) := rfl
  have hnew : seen.contains name = false := by simpa using hseen
  simp only [readMember, readTextFrom_quoted, hslot, hnew, hcolon, hread rest hrest, bind,
    Except.bind]
  rfl

/-- Members that fill different fields are all read. -/
theorem readMembers_filled (h : Fills m a members a') (first : Bool) (rest : List Char)
    (hnew : (members.map Prod.fst).Nodup) (hseen : ∀ name ∈ members.map Prod.fst, name ∉ seen)
    {fuel : Nat} (hfuel : members.length < fuel) :
    m.readMembers seen a first (laterMembers first members ++ rest) fuel =
      .ok ((members.map Prod.fst).reverse ++ seen, a', rest) := by
  induction h generalizing seen first fuel with
  | none a =>
      obtain ⟨fuel, rfl⟩ := Nat.exists_eq_add_one_of_ne_zero (Nat.ne_of_gt hfuel)
      simp only [readMembers, nextKey_later_nil, bind, Except.bind]
      rfl
  | @member a a' final name j members slot hslot hread hrest ih =>
      have hpos : fuel ≠ 0 := Nat.ne_of_gt (Nat.zero_lt_of_lt hfuel)
      obtain ⟨fuel, rfl⟩ := Nat.exists_eq_add_one_of_ne_zero hpos
      rw [List.map_cons, List.nodup_cons] at hnew
      have hmember := readMember_filled hslot hread (hseen name List.mem_cons_self)
        (clear_laterMembers members rest)
      have hseen' (other : String) (hother : other ∈ members.map Prod.fst) :
          other ∉ name :: seen := List.not_mem_cons_of_ne_of_not_mem
        (fun heq => hnew.1 (heq ▸ hother)) (hseen other (List.mem_cons_of_mem name hother))
      have hothers := ih false hnew.2 hseen' (Nat.lt_of_succ_lt_succ hfuel)
      simp only [readMembers, nextKey_later_cons, hmember, hothers, bind, Except.bind]
      rw [List.map_cons, List.reverse_cons, List.append_assoc, List.singleton_append]

/-- A record is read back if its members fill different fields and none that is required is
missing. -/
theorem reads_object (h : Fills m a members a') (hnew : (members.map Prod.fst).Nodup)
    (hrequired : ∀ slot ∈ m.slots, slot.required = true → slot.name ∈ members.map Prod.fst) :
    Reads (m.read a) (.object members) a' := by
  intro rest _
  have hfuel : members.length < (printMembers members ++ rest).length + 1 := by
    have hlength := length_le_printMembers members
    rw [List.length_append]
    omega
  have hmembers := readMembers_filled h true rest hnew (fun _ _ => List.not_mem_nil) hfuel
  have hmissing : m.slots.find? (fun slot => slot.required &&
      !((members.map Prod.fst).reverse ++ []).contains slot.name) = none := by
    refine List.find?_eq_none.2 fun slot hslot hmissing => ?_
    obtain ⟨hslot', hname⟩ := Bool.and_eq_true_iff.1 hmissing
    have hmem := hrequired slot hslot hslot'
    simp [hmem] at hname
  rw [laterMembers] at hmembers
  rw [print, List.cons_append, read, skipBlanks_cons rfl]
  simp only [hmembers, hmissing, bind, Except.bind]
  rfl

theorem clear_printed_object (members : List (String × Json)) (rest : List Char) :
    Clear opensNull (print (.object members) ++ rest) := by
  rw [print, List.cons_append]
  exact clear_cons.2 rfl

end Schema

/-- A whole text that is a printed value is read as what the value is. -/
theorem readAll_text {α : Type} {read : Reader α} {j : Json} {a : α} (h : Reads read j a) :
    readAll read j.text = .ok a := by
  have hread := h [] (clear_nil _)
  rw [List.append_nil] at hread
  rw [readAll, text, String.toList_ofList, hread]
  rfl

end Scheduling.Json
