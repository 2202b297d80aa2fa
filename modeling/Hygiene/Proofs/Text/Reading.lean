import Hygiene.Text.Blank
import Hygiene.Text.Numeral
import Hygiene.Text.Quoted
import Mathlib.Data.List.Basic

/-!
# Printed text that can be read in one way only

Whoever reads a printed text has to find out what was printed and where it stops, since other text may
stand behind it. What may stand there is little: nothing, a space, or a closing bracket (`Ends`). So to
be readable in one way is a property of a text with such a rest behind it:

> `Reads text P a`: if anything with the property `P` is printed, with any rest behind it, to the
> text of `a` with some rest behind it, then it is `a`, and the rests are the same.

This says enough to be used on a text inside a text. A row of items that can be read one by one can be
read as a whole (`spaced_inj`, `separated_inj`), words stop at the first delimiter (`Solid.append_inj`),
and quoted text stops at the first quotation mark that is not spelled out (`quoted_inj`).
-/

namespace Hygiene.Text

/-! ## Where a text stops -/

/-- What may stand behind a printed text: nothing, a space, or a closing bracket. -/
def Ends : List Char → Prop
  | [] => True
  | c :: _ => c = ' ' ∨ c = ')' ∨ c = ']'

instance : ∀ rest : List Char, Decidable (Ends rest)
  | [] => inferInstanceAs (Decidable True)
  | c :: _ => inferInstanceAs (Decidable (c = ' ' ∨ c = ')' ∨ c = ']'))

/-- A bracket that closes a row of items. -/
def Closes (c : Char) : Prop := c = ')' ∨ c = ']'

theorem Closes.ends {c : Char} (h : Closes c) (rest : List Char) : Ends (c :: rest) := Or.inr h

theorem ends_space (rest : List Char) : Ends (' ' :: rest) := Or.inl rfl

/-- Characters that something other than a word begins with. -/
def opens (c : Char) : Bool := ['(', '[', '"'].contains c

/-- Characters that no word holds. -/
def delimits (c : Char) : Bool := opens c || [' ', ')', ']'].contains c

theorem Ends.delimits_head {rest : List Char} (h : Ends rest) :
    ∀ c ∈ rest.head?, delimits c = true := by
  intro c hc
  cases rest with
  | nil => cases hc
  | cons d rest =>
    obtain rfl : d = c := Option.some.inj hc
    rcases h with rfl | rfl | rfl <;> decide

theorem Ends.opens_eq_false {c : Char} {rest : List Char} (h : Ends (c :: rest)) :
    opens c = false := by
  rcases h with rfl | rfl | rfl <;> decide

/-- What opens the text, if it begins with something other than a word. -/
def opening (cs : List Char) : Option Char := cs.head?.filter opens

@[simp] theorem opening_cons (c : Char) (cs : List Char) :
    opening (c :: cs) = if opens c then some c else none := by
  simp [opening, Option.filter_some]

theorem Ends.opening {rest : List Char} (h : Ends rest) : opening rest = none := by
  cases rest with
  | nil => rfl
  | cons c rest => rw [opening_cons, h.opens_eq_false]; rfl

/-! ## Words -/

/-- A run of characters of one kind stops where the first character of another kind stands. -/
theorem run_inj {p : Char → Bool} {w v r s : List Char} (hw : ∀ c ∈ w, p c = true)
    (hv : ∀ c ∈ v, p c = true) (hr : ∀ c ∈ r.head?, p c = false) (hs : ∀ c ∈ s.head?, p c = false)
    (h : w ++ r = v ++ s) : w = v ∧ r = s := by
  have htake : ∀ {w r : List Char}, (∀ c ∈ w, p c = true) → (∀ c ∈ r.head?, p c = false) →
      (w ++ r).takeWhile p = w := by
    intro w r hw hr
    rw [List.takeWhile_append_of_pos hw]
    cases r with
    | nil => rw [List.takeWhile_nil, List.append_nil]
    | cons c r => rw [List.takeWhile_cons_of_neg (by simp [hr c rfl]), List.append_nil]
  have hwv : w = v := by rw [← htake hw hr, h, htake hv hs]
  rw [hwv] at h
  exact ⟨hwv, List.append_cancel_left h⟩

/-- A run of characters none of which is a delimiter. -/
def Solid (w : List Char) : Prop := ∀ c ∈ w, delimits c = false

instance (w : List Char) : Decidable (Solid w) :=
  List.decidableBAll (fun c => delimits c = false) w

namespace Solid

theorem append {w v : List Char} (hw : Solid w) (hv : Solid v) : Solid (w ++ v) := by
  intro c hc
  rcases List.mem_append.mp hc with hc | hc
  · exact hw c hc
  · exact hv c hc

theorem not_ends {w : List Char} (h : Solid w) (hne : w ≠ []) : ¬ Ends w := by
  intro hends
  obtain ⟨c, cs, rfl⟩ := List.exists_cons_of_ne_nil hne
  have hc := h c List.mem_cons_self
  rw [hends.delimits_head c rfl] at hc
  cases hc

/-- Nothing is opened by a word, nor by what may stand behind one that is empty. -/
theorem opening_append {w rest : List Char} (hw : Solid w) (hrest : Ends rest) :
    opening (w ++ rest) = none := by
  cases w with
  | nil => exact hrest.opening
  | cons c w =>
    have hc : delimits c = false := hw c List.mem_cons_self
    rw [delimits, Bool.or_eq_false_iff] at hc
    rw [List.cons_append, opening_cons, hc.1]
    rfl

/-- **A word stops at the first delimiter**, so a text begins with one word only. -/
theorem append_inj {w v r s : List Char} (hw : Solid w) (hv : Solid v) (hr : Ends r) (hs : Ends s)
    (h : w ++ r = v ++ s) : w = v ∧ r = s := by
  refine run_inj (p := fun c => !delimits c) ?_ ?_ ?_ ?_ h
  · simpa [Solid] using hw
  · simpa [Solid] using hv
  · simpa using hr.delimits_head
  · simpa using hs.delimits_head

end Solid

/-! ## Numerals -/

/-- Digits determine the number. -/
theorem toDigits_inj {base : Nat} (hbase : 1 < base) (hsmall : base ≤ 16) {n m : Nat}
    (h : Nat.toDigits base n = Nat.toDigits base m) : n = m := by
  have hdigits : ∀ a < 16, ∀ b < 16, Nat.digitChar a = Nat.digitChar b → a = b := by decide
  induction n using Nat.strongRecOn generalizing m with
  | ind n ih =>
    rw [Nat.toDigits_eq_if hbase, Nat.toDigits_eq_if hbase (n := m)] at h
    have hn : n % base < base := Nat.mod_lt n (by omega)
    have hm : m % base < base := Nat.mod_lt m (by omega)
    split at h <;> split at h
    · exact hdigits n (by omega) m (by omega) (List.singleton_inj.mp h)
    -- of numbers of one and of more digits the texts differ in length
    · have hlength := congrArg List.length h
      have hpos : 0 < (Nat.toDigits base (m / base)).length := Nat.length_toDigits_pos
      simp only [List.length_append, List.length_singleton] at hlength
      omega
    · have hlength := congrArg List.length h
      have hpos : 0 < (Nat.toDigits base (n / base)).length := Nat.length_toDigits_pos
      simp only [List.length_append, List.length_singleton] at hlength
      omega
    · next hlarge _ =>
      obtain ⟨hfront, hlast⟩ := List.append_inj' h rfl
      have hmod : n % base = m % base :=
        hdigits _ (by omega) _ (by omega) (List.singleton_inj.mp hlast)
      have hless : n / base < n := Nat.div_lt_self (by omega) hbase
      have hdiv : n / base = m / base := ih (n / base) hless hfront
      rw [← Nat.div_add_mod n base, ← Nat.div_add_mod m base, hdiv, hmod]

/-- A numeral is made of digits. -/
theorem exists_digit_of_mem_toDigits {base : Nat} (hbase : 1 < base) {n : Nat} {c : Char}
    (h : c ∈ Nat.toDigits base n) : ∃ d < base, c = Nat.digitChar d := by
  induction n using Nat.strongRecOn with
  | ind n ih =>
    rw [Nat.toDigits_eq_if hbase] at h
    split at h
    · next hsmall => exact ⟨n, hsmall, List.mem_singleton.mp h⟩
    · rcases List.mem_append.mp h with h | h
      · exact ih (n / base) (Nat.div_lt_self (by omega) hbase) h
      · exact ⟨n % base, Nat.mod_lt n (by omega), List.mem_singleton.mp h⟩

theorem repr_inj {n m : Nat} (h : n.repr = m.repr) : n = m := by
  have hdigits : Nat.toDigits 10 n = Nat.toDigits 10 m := by
    rw [← Nat.toList_repr, ← Nat.toList_repr, h]
  exact toDigits_inj (by decide) (by decide) hdigits

theorem mem_decimal {n : Int} {c : Char} (h : c ∈ (decimal n).toList) :
    c = '-' ∨ c.isDigit = true := by
  have hrepr : ∀ m : Nat, c ∈ m.repr.toList → c.isDigit = true := by
    intro m hm
    rw [Nat.toList_repr] at hm
    exact Nat.isDigit_of_mem_toDigits (by decide) (by decide) hm
  unfold decimal at h
  split at h
  · rw [String.toList_append, List.mem_append] at h
    rcases h with h | h
    · exact Or.inl (by simpa using h)
    · exact Or.inr (hrepr _ h)
  · exact Or.inr (hrepr _ h)

/-- A text with a letter in it is no numeral. -/
theorem ne_decimal {t : String} {c : Char} (hc : c ∈ t.toList) (hletter : c ≠ '-' ∧ c.isDigit = false)
    (n : Int) : t ≠ decimal n := by
  rintro rfl
  rcases mem_decimal hc with h | h
  · exact hletter.1 h
  · rw [hletter.2] at h
    cases h

theorem decimal_ne_empty (n : Int) : (decimal n).toList ≠ [] := by
  unfold decimal
  split <;> simp

theorem decimal_inj {n m : Int} (h : decimal n = decimal m) : n = m := by
  have hminus : ∀ a b : Nat, "-" ++ a.repr ≠ b.repr := by
    intro a b hab
    have hmem : '-' ∈ b.repr.toList := by
      rw [← hab]
      simp
    rw [Nat.toList_repr] at hmem
    exact absurd (Nat.isDigit_of_mem_toDigits (by decide) (by decide) hmem) (by decide)
  unfold decimal at h
  split at h <;> split at h
  · rw [String.append_right_inj] at h
    have := repr_inj h
    omega
  · exact absurd h (hminus _ _)
  · exact absurd h.symm (hminus _ _)
  · have := repr_inj h
    omega

theorem delimits_of_isDigit {c : Char} (h : c.isDigit = true) : delimits c = false := by
  have hne : ∀ d : Char, d.isDigit = false → c ≠ d := by
    rintro d hd rfl
    rw [h] at hd
    cases hd
  simp [delimits, opens, hne]

theorem solid_repr (n : Nat) : Solid n.repr.toList := by
  intro c hc
  rw [Nat.toList_repr] at hc
  exact delimits_of_isDigit (Nat.isDigit_of_mem_toDigits (by decide) (by decide) hc)

theorem solid_decimal (n : Int) : Solid (decimal n).toList := by
  intro c hc
  rcases mem_decimal hc with rfl | hc
  · decide
  · exact delimits_of_isDigit hc

/-! ## Quoted text -/

/-- A character that two runs do not hold marks where both stop. -/
theorem append_cons_inj {x : Char} {w v r s : List Char} (hw : x ∉ w) (hv : x ∉ v)
    (h : w ++ x :: r = v ++ x :: s) : w = v ∧ r = s := by
  have hother : ∀ {w : List Char}, x ∉ w → ∀ c ∈ w, (c != x) = true := by
    intro w hw c hc
    rw [bne_iff_ne]
    rintro rfl
    exact hw hc
  obtain ⟨hwv, hrest⟩ := run_inj (p := (· != x)) (hother hw) (hother hv) (by simp) (by simp) h
  exact ⟨hwv, (List.cons.inj hrest).2⟩

/-- The characters that are spelled by one letter behind a backslash, each with its letter. -/
def lettered : List (Char × Char) :=
  [('\x00', '0'), ('\t', 't'), ('\r', 'r'), ('\n', 'n'), ('"', '"'), ('\\', '\\')]

/-- The three ways to spell a character: as it is, by a letter, or by its number. -/
theorem escape_cases (c : Char) :
    (escape c = [c] ∧ c ≠ '"' ∧ c ≠ '\\')
      ∨ (∃ letter, (c, letter) ∈ lettered ∧ escape c = ['\\', letter])
      ∨ escape c = numbered c := by
  unfold escape
  split
  · exact Or.inr (Or.inl ⟨'0', by decide, rfl⟩)
  · exact Or.inr (Or.inl ⟨'t', by decide, rfl⟩)
  · exact Or.inr (Or.inl ⟨'r', by decide, rfl⟩)
  · exact Or.inr (Or.inl ⟨'n', by decide, rfl⟩)
  · exact Or.inr (Or.inl ⟨'"', by decide, rfl⟩)
  · exact Or.inr (Or.inl ⟨'\\', by decide, rfl⟩)
  · next hquote hbackslash =>
    split
    · exact Or.inl ⟨rfl, hquote, hbackslash⟩
    · exact Or.inr (Or.inr rfl)

/-- Inside quotes no character is spelled with a quotation mark in front. -/
theorem escape_ne_quote (c : Char) (r s : List Char) : escape c ++ r ≠ '"' :: s := by
  intro h
  rcases escape_cases c with ⟨hc, hquote, -⟩ | ⟨letter, -, hc⟩ | hc
  · rw [hc] at h
    exact hquote (List.cons.inj h).1
  · rw [hc] at h
    exact absurd (List.cons.inj h).1 (by decide)
  · rw [hc, numbered] at h
    exact absurd (List.cons.inj h).1 (by decide)

theorem numbered_inj {c d : Char} {r s : List Char} (h : numbered c ++ r = numbered d ++ s) :
    c = d ∧ r = s := by
  have hbrace : ∀ n : Nat, '}' ∉ Nat.toDigits 16 n := by
    intro n hmem
    obtain ⟨a, ha, hchar⟩ := exists_digit_of_mem_toDigits (by decide) hmem
    exact absurd hchar (by revert a; decide)
  have hdigits : Nat.toDigits 16 c.toNat ++ '}' :: r = Nat.toDigits 16 d.toNat ++ '}' :: s := by
    simpa [numbered] using h
  obtain ⟨hsame, hrest⟩ := append_cons_inj (hbrace _) (hbrace _) hdigits
  exact ⟨Char.toNat_inj.mp (toDigits_inj (by decide) (by decide) hsame), hrest⟩

/-- Of two characters that are spelled the same, with anything behind, neither can be the other's
beginning. -/
theorem escape_inj {c d : Char} {r s : List Char} (h : escape c ++ r = escape d ++ s) :
    c = d ∧ r = s := by
  have hletters : ∀ p ∈ lettered, ∀ q ∈ lettered, p.2 = q.2 → p.1 = q.1 := by decide
  have hnotNumbered : ∀ p ∈ lettered, p.2 ≠ 'u' := by decide
  rcases escape_cases c with ⟨hc, -, hplain⟩ | ⟨k, hk, hc⟩ | hc <;>
    rcases escape_cases d with ⟨hd, -, hplain'⟩ | ⟨l, hl, hd⟩ | hd <;>
    rw [hc, hd] at h
  · exact List.cons.inj h
  -- a bare character and one behind a backslash
  · exact absurd (List.cons.inj h).1 hplain
  · exact absurd (List.cons.inj h).1 hplain
  · exact absurd (List.cons.inj h).1.symm hplain'
  · obtain ⟨hkl, hrest⟩ := List.cons.inj (List.cons.inj h).2
    exact ⟨hletters _ hk _ hl hkl, hrest⟩
  -- a letter and a number
  · exact absurd (List.cons.inj (List.cons.inj h).2).1 (hnotNumbered _ hk)
  · exact absurd (List.cons.inj h).1.symm hplain'
  · exact absurd (List.cons.inj (List.cons.inj h).2).1.symm (hnotNumbered _ hl)
  · exact numbered_inj h

/-- **The closing quotation mark is the only bare one**, so quoted text is read in one way, whatever
stands behind it. -/
theorem quoted_inj {s t : String} {r r' : List Char}
    (h : (quoted s).toList ++ r = (quoted t).toList ++ r') : s = t ∧ r = r' := by
  have hall : ∀ cs ds : List Char,
      escapeAll cs ++ '"' :: r = escapeAll ds ++ '"' :: r' → cs = ds ∧ r = r' := by
    intro cs
    induction cs with
    | nil =>
      intro ds h
      cases ds with
      | nil => exact ⟨rfl, (List.cons.inj h).2⟩
      | cons d ds =>
        rw [escapeAll_cons, List.append_assoc] at h
        exact absurd h.symm (escape_ne_quote d _ _)
    | cons c cs ih =>
      intro ds h
      cases ds with
      | nil =>
        rw [escapeAll_cons, List.append_assoc] at h
        exact absurd h (escape_ne_quote c _ _)
      | cons d ds =>
        rw [escapeAll_cons, escapeAll_cons, List.append_assoc, List.append_assoc] at h
        obtain ⟨hcd, hrest⟩ := escape_inj h
        obtain ⟨hcs, hr⟩ := ih ds hrest
        exact ⟨by rw [hcd, hcs], hr⟩
  have hinside : escapeAll s.toList ++ '"' :: r = escapeAll t.toList ++ '"' :: r' := by
    simpa using h
  obtain ⟨hst, hr⟩ := hall _ _ hinside
  exact ⟨String.toList_inj.mp hst, hr⟩

/-! ## Rows of items -/

/-- The text of `a` can be read in one way among the texts of all that has the property `P`: it
determines `a`, and where it stops. -/
def Reads {α : Type} (text : α → String) (P : α → Prop) (a : α) : Prop :=
  ∀ b, P b → ∀ r s, Ends r → Ends s → (text a).toList ++ r = (text b).toList ++ s → a = b ∧ r = s

section Rows

variable {α : Type} {text : α → String} {P : α → Prop} {close : Char}

/-- Behind an item there is the space before the next one, or the closing bracket. -/
theorem ends_spaced (hclose : Closes close) (as : List α) (r : List Char) :
    Ends (as.flatMap (fun a => ' ' :: (text a).toList) ++ close :: r) := by
  cases as with
  | nil => exact hclose.ends r
  | cons a as => exact ends_space _

/-- **Items that can be read can be read in a row**, here each behind a space. -/
theorem spaced_inj (hclose : Closes close) {as bs : List α} (has : ∀ a ∈ as, Reads text P a)
    (hbs : ∀ b ∈ bs, P b) {r s : List Char}
    (h : as.flatMap (fun a => ' ' :: (text a).toList) ++ close :: r
      = bs.flatMap (fun b => ' ' :: (text b).toList) ++ close :: s) : as = bs ∧ r = s := by
  have hspace : close ≠ ' ' := by rcases hclose with rfl | rfl <;> decide
  induction as generalizing bs with
  | nil =>
    cases bs with
    | nil => exact ⟨rfl, (List.cons.inj h).2⟩
    | cons b bs => exact absurd (List.cons.inj h).1 hspace
  | cons a as ih =>
    cases bs with
    | nil => exact absurd (List.cons.inj h).1.symm hspace
    | cons b bs =>
      simp only [List.flatMap_cons, List.cons_append, List.append_assoc, List.cons.injEq,
        true_and] at h
      obtain ⟨hab, hrest⟩ := has a List.mem_cons_self b (hbs b List.mem_cons_self) _ _
        (ends_spaced hclose as r) (ends_spaced hclose bs s) h
      obtain ⟨hsame, hr⟩ := ih (fun a ha => has a (List.mem_cons_of_mem _ ha))
        (fun b hb => hbs b (List.mem_cons_of_mem _ hb)) hrest
      exact ⟨by rw [hab, hsame], hr⟩

/-- Of texts a space apart, only the first has no space in front of it. -/
theorem toList_intercalate_map_cons (a : α) (as : List α) :
    (" ".intercalate ((a :: as).map text)).toList
      = (text a).toList ++ as.flatMap fun b => ' ' :: (text b).toList := by
  induction as generalizing a with
  | nil => simp
  | cons b as ih =>
    rw [List.map_cons, List.map_cons, String.intercalate_cons_cons, ← List.map_cons,
      String.toList_append, ih b, List.flatMap_cons]
    simp

/-- **Items that can be read can be read in a row**, here a space apart. An item must begin with a
character that does not end it, or no items at all could not be told from an empty one. -/
theorem separated_inj (hclose : Closes close) (hstart : ∀ a, P a → ¬ Ends (text a).toList)
    {as bs : List α} (has : ∀ a ∈ as, P a ∧ Reads text P a) (hbs : ∀ b ∈ bs, P b) {r s : List Char}
    (h : (" ".intercalate (as.map text)).toList ++ close :: r
      = (" ".intercalate (bs.map text)).toList ++ close :: s) : as = bs ∧ r = s := by
  -- a closing bracket begins no item
  have hnone : ∀ a, P a → ∀ rest rest' : List Char, (text a).toList ++ rest ≠ close :: rest' := by
    intro a ha rest rest' heq
    refine hstart a ha ?_
    cases htext : (text a).toList with
    | nil => exact trivial
    | cons c cs =>
      rw [htext] at heq
      rw [(List.cons.inj heq).1]
      exact hclose.ends cs
  cases as with
  | nil =>
    cases bs with
    | nil => exact ⟨rfl, by simpa using h⟩
    | cons b bs =>
      rw [toList_intercalate_map_cons, List.append_assoc] at h
      exact absurd (Eq.symm (by simpa using h)) (hnone b (hbs b List.mem_cons_self) _ r)
  | cons a as =>
    cases bs with
    | nil =>
      rw [toList_intercalate_map_cons, List.append_assoc] at h
      exact absurd (by simpa using h) (hnone a (has a List.mem_cons_self).1 _ s)
    | cons b bs =>
      rw [toList_intercalate_map_cons, toList_intercalate_map_cons, List.append_assoc,
        List.append_assoc] at h
      obtain ⟨hab, hrest⟩ := (has a List.mem_cons_self).2 b (hbs b List.mem_cons_self) _ _
        (ends_spaced hclose as r) (ends_spaced hclose bs s) h
      obtain ⟨hsame, hr⟩ := spaced_inj hclose (fun a ha => (has a (List.mem_cons_of_mem _ ha)).2)
        (fun b hb => hbs b (List.mem_cons_of_mem _ hb)) hrest
      exact ⟨by rw [hab, hsame], hr⟩

end Rows

end Hygiene.Text
