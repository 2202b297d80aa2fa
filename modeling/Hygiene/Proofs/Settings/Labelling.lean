import Hygiene.Proofs.Text.Columns
import Hygiene.Settings.Loading
import Mathlib.Data.List.TakeWhile
import Mathlib.Data.String.Basic

/-!
# The label of an invalid setting

What a label has to point at is said about the text alone, without the walk that finds it. A line
(`IsLine`) is a stretch between two line breaks, or between a line break and an end of the text. It
assigns to a key (`Assigns`) when the key stands behind its blanks in front, and an equals sign behind
the key and further blanks. `FirstAt` is the byte at which the key stands in the first line that
does so.

The walk goes over lines with their ends, and every recursion here follows a text in the same way, by
`linewise`: a text has no line break, or it is a line, its break, and the text below. So each notion
has two lemmas, one for a text on one line and one for a line in front of a text, and `finds_lines`
puts them together.

> `Config.loadWith_decides`: what is loaded and what is refused, and where a refusal points.
-/

namespace Hygiene

open Text (isBlank byteLength)

namespace Settings

/-! ## Lines of a text -/

/-- `line` is a line of a text, without its end; `above` stands before it and `below` behind. -/
structure IsLine (cs above line below : List Char) : Prop where
  split : cs = above ++ line ++ below
  starts : above = [] ∨ ['\n'] <:+ above
  unbroken : '\n' ∉ line
  ends : below = [] ∨ ['\n'] <+: below

/-- A text on one line, or a line in front of a text. -/
theorem linewise {P : List Char → Prop} (last : ∀ body, '\n' ∉ body → P body)
    (line : ∀ body rest, '\n' ∉ body → P rest → P (body ++ '\n' :: rest)) (cs : List Char) : P cs := by
  by_cases h : '\n' ∈ cs
  · obtain ⟨body, rest, hcs, hbody⟩ := List.eq_append_cons_of_mem h
    rw [hcs]
    exact line body rest hbody (linewise last line rest)
  · exact last cs h
  termination_by cs.length
  decreasing_by
    rw [hcs, List.length_append, List.length_cons]
    omega

theorem lines_of_unbroken {body : List Char} (h : '\n' ∉ body) (hne : body ≠ []) :
    lines body = [body] := by
  induction body with
  | nil => exact absurd rfl hne
  | cons c body ih =>
    rw [List.mem_cons, not_or] at h
    rw [lines, if_neg (Ne.symm h.1)]
    cases body with
    | nil => rfl
    | cons d body => rw [ih h.2 (List.cons_ne_nil d body)]

theorem lines_append {body : List Char} (h : '\n' ∉ body) (rest : List Char) :
    lines (body ++ '\n' :: rest) = (body ++ ['\n']) :: lines rest := by
  induction body with
  | nil => rw [List.nil_append, lines, if_pos rfl, List.nil_append]
  | cons c body ih =>
    rw [List.mem_cons, not_or] at h
    rw [List.cons_append, lines, if_neg (Ne.symm h.1), ih h.2, List.cons_append]

variable {cs body rest above line below : List Char}

theorem IsLine.whole (h : '\n' ∉ body) : IsLine body [] body [] where
  split := by simp
  starts := Or.inl rfl
  unbroken := h
  ends := Or.inl rfl

theorem IsLine.first (h : '\n' ∉ body) (rest : List Char) :
    IsLine (body ++ '\n' :: rest) [] body ('\n' :: rest) where
  split := by simp
  starts := Or.inl rfl
  unbroken := h
  ends := Or.inr ⟨rest, rfl⟩

theorem IsLine.behind (h : IsLine cs above line below) (body : List Char) :
    IsLine (body ++ '\n' :: cs) (body ++ '\n' :: above) line below where
  split := by simp [h.split]
  starts := by
    refine Or.inr ?_
    rcases h.starts with rfl | ⟨front, rfl⟩
    · exact ⟨body, rfl⟩
    · exact ⟨body ++ '\n' :: front, by simp⟩
  unbroken := h.unbroken
  ends := h.ends

/-- The line that starts at a place goes up to the next line break. -/
theorem IsLine.eq_takeWhile (h : IsLine cs above line below) :
    line = (line ++ below).takeWhile fun c => c != '\n' := by
  have hall : ∀ c ∈ line, (c != '\n') = true := by
    intro c hc
    rw [bne_iff_ne]
    rintro rfl
    exact h.unbroken hc
  rw [List.takeWhile_append_of_pos hall]
  rcases h.ends with rfl | ⟨rest, rfl⟩ <;> simp

/-- Where a line starts decides what it is. -/
theorem IsLine.unique {above' line' below' : List Char} (h : IsLine cs above line below)
    (h' : IsLine cs above' line' below') (hlen : above.length = above'.length) :
    above = above' ∧ line = line' := by
  have hsplit : above ++ (line ++ below) = above' ++ (line' ++ below') := by
    rw [← List.append_assoc, ← h.split, h'.split, List.append_assoc]
  obtain ⟨habove, hbehind⟩ := List.append_inj hsplit hlen
  refine ⟨habove, ?_⟩
  rw [h.eq_takeWhile, h'.eq_takeWhile, hbehind]

/-- A text without a line break has one line. -/
theorem isLine_of_unbroken (hbody : '\n' ∉ body) (h : IsLine body above line below) :
    above = [] ∧ line = body := by
  rw [h.split, List.mem_append, List.mem_append, not_or, not_or] at hbody
  have habove : above = [] := by
    refine h.starts.resolve_right ?_
    rintro ⟨front, rfl⟩
    exact hbody.1.1 (List.mem_append_right _ List.mem_cons_self)
  have hbelow : below = [] := by
    refine h.ends.resolve_right ?_
    rintro ⟨back, rfl⟩
    exact hbody.2 List.mem_cons_self
  refine ⟨habove, ?_⟩
  rw [h.split, habove, hbelow, List.nil_append, List.append_nil]

/-- A line of a text that begins with a line is that one or stands further down. -/
theorem isLine_append (hbody : '\n' ∉ body) (h : IsLine (body ++ '\n' :: rest) above line below) :
    (above = [] ∧ line = body) ∨
      ∃ above', above = body ++ '\n' :: above' ∧ IsLine rest above' line below := by
  rcases h.starts with rfl | ⟨front, rfl⟩
  · refine Or.inl ?_
    have hunique := (IsLine.first hbody rest).unique h rfl
    exact ⟨rfl, hunique.2.symm⟩
  · refine Or.inr ?_
    have hsplit : body ++ '\n' :: rest = front ++ '\n' :: (line ++ below) := by
      rw [h.split]
      simp
    obtain ⟨between, rfl, hbetween⟩ := Text.break_behind hbody hsplit
    cases between with
    | nil =>
      obtain ⟨-, hrest⟩ := List.cons.inj hbetween
      exact ⟨[], by simp, ⟨hrest, Or.inl rfl, h.unbroken, h.ends⟩⟩
    | cons c between =>
      obtain ⟨rfl, hrest⟩ := List.cons.inj hbetween
      exact ⟨between ++ ['\n'], by simp,
        ⟨by rw [hrest]; simp, Or.inr ⟨between, rfl⟩, h.unbroken, h.ends⟩⟩

/-! ## Lines that assign to a key -/

/-- The line assigns to the key: `blanks` in front, then the key, blanks again, an equals sign. -/
def Assigns (key line blanks : List Char) : Prop :=
  ∃ gap rest, line = blanks ++ key ++ gap ++ '=' :: rest
    ∧ (∀ c ∈ blanks, isBlank c = true) ∧ ∀ c ∈ gap, isBlank c = true

/-- A key that blanks cannot be confused with. -/
def Bare (key : List Char) : Prop := key ≠ [] ∧ ∀ c ∈ key, isBlank c = false

instance (key : List Char) : Decidable (Bare key) :=
  decidable_of_iff (key.isEmpty = false ∧ (key.all fun c => !isBlank c) = true) (by simp [Bare])

variable {key blanks : List Char}

theorem assignsTo_iff {text : List Char} :
    assignsTo key text = true ↔
      ∃ gap rest, text = key ++ gap ++ '=' :: rest ∧ ∀ c ∈ gap, isBlank c = true := by
  rw [assignsTo, Bool.and_eq_true, List.isPrefixOf_iff_prefix, beq_iff_eq]
  constructor
  · rintro ⟨⟨after, rfl⟩, hequals⟩
    rw [List.drop_left] at hequals
    obtain ⟨rest, hrest⟩ := List.head?_eq_some_iff.mp hequals
    refine ⟨after.takeWhile isBlank, rest, ?_, fun c hc => List.mem_takeWhile_imp hc⟩
    rw [← hrest, List.append_assoc, List.takeWhile_append_dropWhile]
  · rintro ⟨gap, rest, rfl, hgap⟩
    rw [List.append_assoc, List.drop_left, List.dropWhile_append_of_pos hgap]
    exact ⟨List.prefix_append _ _, rfl⟩

/-- The blanks of a line that assigns to a key are all that stand in front. -/
theorem Assigns.takeWhile_eq (hkey : Bare key) (h : Assigns key line blanks) :
    line.takeWhile isBlank = blanks := by
  obtain ⟨gap, rest, rfl, hblanks, -⟩ := h
  obtain ⟨c, key, rfl⟩ := List.exists_cons_of_ne_nil hkey.1
  have hc : ¬ isBlank c = true := by simp [hkey.2 c List.mem_cons_self]
  rw [List.append_assoc, List.append_assoc, List.takeWhile_append_of_pos hblanks, List.cons_append,
    List.takeWhile_cons_of_neg hc, List.append_nil]

theorem assignsTo_dropWhile_iff :
    assignsTo key (line.dropWhile isBlank) = true ↔ Assigns key line (line.takeWhile isBlank) := by
  rw [assignsTo_iff]
  constructor
  · rintro ⟨gap, rest, htrimmed, hgap⟩
    refine ⟨gap, rest, ?_, fun c hc => List.mem_takeWhile_imp hc, hgap⟩
    rw [List.append_assoc, List.append_assoc, ← List.append_assoc key, ← htrimmed,
      List.takeWhile_append_dropWhile]
  · rintro ⟨gap, rest, hline, -, hgap⟩
    refine ⟨gap, rest, ?_, hgap⟩
    have hparts : line.takeWhile isBlank ++ line.dropWhile isBlank = _ :=
      List.takeWhile_append_dropWhile.trans hline
    rw [List.append_assoc, List.append_assoc, ← List.append_assoc key] at hparts
    exact List.append_cancel_left hparts

/-- The end of a line has no part in the assignment. -/
theorem assigns_append_newline : Assigns key (line ++ ['\n']) blanks ↔ Assigns key line blanks := by
  constructor
  · rintro ⟨gap, rest, hline, hblanks, hgap⟩
    rcases List.eq_nil_or_concat rest with rfl | ⟨rest, c, rfl⟩
    · exact absurd (List.append_inj' hline rfl).2 (by decide)
    · rw [List.concat_eq_append, ← List.cons_append, ← List.append_assoc] at hline
      exact ⟨gap, rest, (List.append_inj' hline rfl).1, hblanks, hgap⟩
  · rintro ⟨gap, rest, rfl, hblanks, hgap⟩
    exact ⟨gap, rest ++ ['\n'], by simp, hblanks, hgap⟩

/-- The text assigns to the key on the line behind `above`, whose blanks in front are `blanks`. -/
def AssignedBehind (key cs above blanks : List Char) : Prop :=
  ∃ line below, IsLine cs above line below ∧ Assigns key line blanks

theorem assignedBehind_of_unbroken (hbody : '\n' ∉ body) :
    AssignedBehind key body above blanks ↔ above = [] ∧ Assigns key body blanks := by
  constructor
  · rintro ⟨line, below, hline, hassigns⟩
    obtain ⟨habove, rfl⟩ := isLine_of_unbroken hbody hline
    exact ⟨habove, hassigns⟩
  · rintro ⟨rfl, hassigns⟩
    exact ⟨body, [], .whole hbody, hassigns⟩

theorem assignedBehind_append (hbody : '\n' ∉ body) :
    AssignedBehind key (body ++ '\n' :: rest) above blanks ↔
      (above = [] ∧ Assigns key body blanks) ∨
        ∃ above', above = body ++ '\n' :: above' ∧ AssignedBehind key rest above' blanks := by
  constructor
  · rintro ⟨line, below, hline, hassigns⟩
    rcases isLine_append hbody hline with ⟨habove, rfl⟩ | ⟨above', habove, hline⟩
    · exact Or.inl ⟨habove, hassigns⟩
    · exact Or.inr ⟨above', habove, line, below, hline, hassigns⟩
  · rintro (⟨rfl, hassigns⟩ | ⟨above', rfl, line, below, hline, hassigns⟩)
    · exact ⟨body, _, .first hbody rest, hassigns⟩
    · exact ⟨line, below, hline.behind body, hassigns⟩

/-! ## The first of them -/

/-- Bytes are counted here as for any string. -/
theorem byteLength_eq_utf8Len (cs : List Char) : byteLength cs = String.utf8Len cs := by
  induction cs with
  | nil => rfl
  | cons c cs ih => rw [byteLength, String.utf8Len_cons, ih, Nat.add_comm]

/-- The key stands at byte `offset`, in the first line of the text that assigns to it. -/
def FirstAt (key cs : List Char) (offset : Nat) : Prop :=
  ∃ above blanks, AssignedBehind key cs above blanks ∧ offset = byteLength (above ++ blanks)
    ∧ ∀ above' blanks', AssignedBehind key cs above' blanks' → above.length ≤ above'.length

/-- No line of the text assigns to the key. -/
def Unassigned (key cs : List Char) : Prop :=
  ∀ above blanks, ¬ AssignedBehind key cs above blanks

variable {offset : Nat}

theorem FirstAt.unique (hkey : Bare key) {offset' : Nat} (h : FirstAt key cs offset)
    (h' : FirstAt key cs offset') : offset = offset' := by
  obtain ⟨above, blanks, ⟨line, below, hline, hassigns⟩, rfl, hfirst⟩ := h
  obtain ⟨above', blanks', ⟨line', below', hline', hassigns'⟩, rfl, hfirst'⟩ := h'
  have hlen := Nat.le_antisymm (hfirst _ _ ⟨line', below', hline', hassigns'⟩)
    (hfirst' _ _ ⟨line, below, hline, hassigns⟩)
  obtain ⟨rfl, rfl⟩ := hline.unique hline' hlen
  rw [← hassigns.takeWhile_eq hkey, ← hassigns'.takeWhile_eq hkey]

theorem FirstAt.not_unassigned (h : FirstAt key cs offset) : ¬ Unassigned key cs := by
  obtain ⟨above, blanks, hassigned, -⟩ := h
  exact fun hnone => hnone above blanks hassigned

theorem firstAt_head (h : AssignedBehind key cs [] blanks) : FirstAt key cs (byteLength blanks) :=
  ⟨[], blanks, h, rfl, fun _ _ _ => Nat.zero_le _⟩

theorem FirstAt.behind (hbody : '\n' ∉ body) (hnone : ∀ blanks, ¬ Assigns key body blanks)
    (h : FirstAt key rest offset) :
    FirstAt key (body ++ '\n' :: rest) (byteLength (body ++ ['\n']) + offset) := by
  obtain ⟨above, blanks, hassigned, rfl, hfirst⟩ := h
  refine ⟨body ++ '\n' :: above, blanks, ?_, ?_, ?_⟩
  · exact (assignedBehind_append hbody).mpr (Or.inr ⟨above, rfl, hassigned⟩)
  · rw [byteLength_eq_utf8Len, byteLength_eq_utf8Len, byteLength_eq_utf8Len, ← String.utf8Len_append]
    simp
  · intro above' blanks' hassigned'
    rcases (assignedBehind_append hbody).mp hassigned' with ⟨-, hhead⟩ | ⟨above', rfl, hbelow⟩
    · exact absurd hhead (hnone blanks')
    · have := hfirst above' blanks' hbelow
      simp only [List.length_append, List.length_cons]
      omega

theorem Unassigned.behind (hbody : '\n' ∉ body) (hnone : ∀ blanks, ¬ Assigns key body blanks)
    (h : Unassigned key rest) : Unassigned key (body ++ '\n' :: rest) := by
  intro above blanks hassigned
  rcases (assignedBehind_append hbody).mp hassigned with ⟨-, hhead⟩ | ⟨above', -, hbelow⟩
  · exact hnone blanks hhead
  · exact h above' blanks hbelow

/-! ## The walk -/

theorem findKeyFrom_cons_of_assigns (hkey : Bare key) (h : Assigns key line blanks) (start : Nat)
    (others : List (List Char)) :
    findKeyFrom key start (line :: others) = some ⟨start + byteLength blanks, byteLength key⟩ := by
  have hblanks := h.takeWhile_eq hkey
  rw [findKeyFrom, if_pos (assignsTo_dropWhile_iff.mpr (hblanks ▸ h)), hblanks]

theorem findKeyFrom_cons_of_not (h : ∀ blanks, ¬ Assigns key line blanks)
    (start : Nat) (others : List (List Char)) :
    findKeyFrom key start (line :: others) = findKeyFrom key (start + byteLength line) others := by
  rw [findKeyFrom, if_neg fun hassigns => h _ (assignsTo_dropWhile_iff.mp hassigns)]

/-- What the walk over a text that starts at byte `start` has to find: the first line that assigns to
the key, and nothing if there is none. -/
def Finds (key cs : List Char) (start : Nat) (found : Option Text.Span) : Prop :=
  (∃ offset, FirstAt key cs offset ∧ found = some ⟨start + offset, byteLength key⟩)
    ∨ Unassigned key cs ∧ found = none

theorem finds_of_unbroken (hkey : Bare key) (hbody : '\n' ∉ body) (start : Nat) :
    Finds key body start (findKeyFrom key start (lines body)) := by
  by_cases hassigns : ∃ blanks, Assigns key body blanks
  case pos =>
    obtain ⟨blanks, hassigns⟩ := hassigns
    have hne : body ≠ [] := by
      rintro rfl
      obtain ⟨gap, rest, hnil, -⟩ := hassigns
      simp at hnil
    refine Or.inl ⟨byteLength blanks, firstAt_head ?_, ?_⟩
    · exact (assignedBehind_of_unbroken hbody).mpr ⟨rfl, hassigns⟩
    · rw [lines_of_unbroken hbody hne, findKeyFrom_cons_of_assigns hkey hassigns]
  case neg =>
    rw [not_exists] at hassigns
    refine Or.inr ⟨fun above blanks hassigned => ?_, ?_⟩
    · exact hassigns blanks ((assignedBehind_of_unbroken hbody).mp hassigned).2
    · by_cases hne : body = []
      · rw [hne]
        rfl
      · rw [lines_of_unbroken hbody hne, findKeyFrom_cons_of_not hassigns]
        rfl

/-- One line of the walk: it is the one, or the walk goes on below it. -/
theorem finds_append (hkey : Bare key) (hbody : '\n' ∉ body) (start : Nat)
    (hrest : Finds key rest (start + byteLength (body ++ ['\n']))
      (findKeyFrom key (start + byteLength (body ++ ['\n'])) (lines rest))) :
    Finds key (body ++ '\n' :: rest) start (findKeyFrom key start (lines (body ++ '\n' :: rest))) := by
  rw [lines_append hbody]
  by_cases hassigns : ∃ blanks, Assigns key body blanks
  case pos =>
    obtain ⟨blanks, hassigns⟩ := hassigns
    refine Or.inl ⟨byteLength blanks, firstAt_head ?_, ?_⟩
    · exact (assignedBehind_append hbody).mpr (Or.inl ⟨rfl, hassigns⟩)
    · exact findKeyFrom_cons_of_assigns hkey (assigns_append_newline.mpr hassigns) _ _
  case neg =>
    rw [not_exists] at hassigns
    rw [findKeyFrom_cons_of_not fun blanks h => hassigns blanks (assigns_append_newline.mp h)]
    rcases hrest with ⟨offset, hfirst, hfound⟩ | ⟨hnone, hfound⟩
    · refine Or.inl ⟨_, hfirst.behind hbody hassigns, ?_⟩
      rw [hfound, Nat.add_assoc]
    · exact Or.inr ⟨hnone.behind hbody hassigns, hfound⟩

theorem finds_lines (hkey : Bare key) (cs : List Char) (start : Nat) :
    Finds key cs start (findKeyFrom key start (lines cs)) := by
  induction cs using linewise generalizing start with
  | last body hbody => exact finds_of_unbroken hkey hbody start
  | line body rest hbody ih => exact finds_append hkey hbody start (ih _)

/-! ## Places in a text -/

/-- What stands between two parts of a text starts and stops between characters, and is cut out
again by its place. -/
theorem extract_of_toList {source part : String} {front back : List Char}
    (h : source.toList = front ++ part.toList ++ back) :
    String.Pos.Raw.IsValid source ⟨byteLength front⟩
      ∧ String.Pos.Raw.IsValid source ⟨byteLength front + part.utf8ByteSize⟩
      ∧ String.Pos.Raw.extract source ⟨byteLength front⟩ ⟨byteLength front + part.utf8ByteSize⟩
          = part := by
  have hfront : byteLength front = (String.ofList front).utf8ByteSize := by
    rw [byteLength_eq_utf8Len, String.utf8ByteSize_ofList]
  have hsource : source = String.ofList front ++ part ++ String.ofList back := by
    rw [← String.toList_inj, h]
    simp
  rw [String.Pos.Raw.isValid_iff_exists_append, String.Pos.Raw.isValid_iff_exists_append, hfront]
  refine ⟨⟨String.ofList front, part ++ String.ofList back, ?_, rfl⟩,
    ⟨String.ofList front ++ part, String.ofList back, hsource, ?_⟩, ?_⟩
  · rw [hsource, String.append_assoc]
  · rw [String.Pos.Raw.ext_iff, String.byteIdx_rawEndPos, String.utf8ByteSize_append]
  · have hextract := String.extract_of_valid front part.toList back
    rw [← h, String.ofList_toList, String.ofList_toList, String.utf8Len_toList] at hextract
    rwa [← String.utf8ByteSize_ofList] at hextract

/-- What the place of a key has to be: the bytes of the key in the first line that assigns to it, and
no place exactly if there is no such line. A place lies in the text, between characters. -/
structure Denotes (source key : String) (place : Option Text.Span) : Prop where
  found : ∀ offset length,
    place = some ⟨offset, length⟩ ↔ FirstAt key.toList source.toList offset ∧ length = key.utf8ByteSize
  missing : place = none ↔ Unassigned key.toList source.toList
  written : ∀ offset length, place = some ⟨offset, length⟩ →
    String.Pos.Raw.IsValid source ⟨offset⟩ ∧ String.Pos.Raw.IsValid source ⟨offset + length⟩
      ∧ String.Pos.Raw.extract source ⟨offset⟩ ⟨offset + length⟩ = key

theorem extract_of_firstAt {source key : String} (h : FirstAt key.toList source.toList offset) :
    String.Pos.Raw.IsValid source ⟨offset⟩
      ∧ String.Pos.Raw.IsValid source ⟨offset + key.utf8ByteSize⟩
      ∧ String.Pos.Raw.extract source ⟨offset⟩ ⟨offset + key.utf8ByteSize⟩ = key := by
  obtain ⟨above, blanks, ⟨line, below, hline, gap, rest, rfl, -, -⟩, rfl, -⟩ := h
  have hsource : source.toList = above ++ blanks ++ key.toList ++ (gap ++ '=' :: rest ++ below) := by
    rw [hline.split]
    simp
  exact extract_of_toList hsource

theorem findKey_denotes {key : String} (hkey : Bare key.toList) (source : String) :
    Denotes source key (findKey source key) := by
  rcases finds_lines hkey source.toList 0 with ⟨offset, hfirst, hfound⟩ | ⟨hnone, hfound⟩
  · rw [Nat.zero_add, byteLength_eq_utf8Len, String.utf8Len_toList] at hfound
    rw [findKey, hfound]
    refine ⟨fun offset' length => ⟨fun h => ?_, fun ⟨h, hlength⟩ => ?_⟩, ?_, fun _ _ h => ?_⟩
    · cases h
      exact ⟨hfirst, rfl⟩
    · rw [hfirst.unique hkey h, hlength]
    · exact ⟨fun h => (nomatch h), fun h => absurd h hfirst.not_unassigned⟩
    · cases h
      exact extract_of_firstAt hfirst
  · rw [findKey, hfound]
    exact ⟨fun _ _ => ⟨fun h => (nomatch h), fun h => absurd hnone h.1.not_unassigned⟩,
      ⟨fun _ => hnone, fun _ => rfl⟩, fun _ _ h => (nomatch h)⟩

end Settings

/-! ## Loading -/

namespace Config

open Settings (Denotes)

variable {config : Config} {source file : String}

theorem validate_of_indent (h : ¬ (1 ≤ config.render.indent ∧ config.render.indent ≤ 8)) :
    config.validate source file =
      .error (.invalid file (Settings.findKey source "indent")
        "render indent must be between 1 and 8 spaces") := by
  rw [validate, if_pos (by omega)]

theorem validate_of_width (h : 1 ≤ config.render.indent ∧ config.render.indent ≤ 8)
    (hwidth : config.render.width = 0) :
    config.validate source file =
      .error (.invalid file (Settings.findKey source "width")
        "render width must be greater than zero") := by
  rw [validate, if_neg (by omega), if_pos hwidth]

/-- **Loading decides by the bounds and labels the key.** However a text is read: what cannot be read
is refused as the reader says, and what is read is loaded exactly if the indent is between 1 and 8
and there is a width. Otherwise the fault is about the indent, whatever the width, and about the width
only if the indent is in bounds; its place is that of the key in the text. -/
theorem loadWith_decides (read : String → String → Except Fault Config) (source file : String) :
    (∀ fault, read source file = .error fault → loadWith read source file = .error fault)
    ∧ ∀ config, read source file = .ok config →
      (∀ loaded, loadWith read source file = .ok loaded ↔
        loaded = config ∧ 1 ≤ config.render.indent ∧ config.render.indent ≤ 8
          ∧ 0 < config.render.width)
      ∧ (¬ (1 ≤ config.render.indent ∧ config.render.indent ≤ 8) →
        ∃ place, Denotes source "indent" place
          ∧ loadWith read source file =
              .error (.invalid file place "render indent must be between 1 and 8 spaces"))
      ∧ (1 ≤ config.render.indent ∧ config.render.indent ≤ 8 → config.render.width = 0 →
        ∃ place, Denotes source "width" place
          ∧ loadWith read source file =
              .error (.invalid file place "render width must be greater than zero")) := by
  refine ⟨fun fault hread => loadWith_of_error hread, fun config hread => ⟨?_, ?_, ?_⟩⟩
  · intro loaded
    rw [loadWith_eq_ok_iff, hread, Except.ok.injEq]
    constructor
    · rintro ⟨rfl, hvalid⟩
      exact ⟨rfl, validate_eq_ok_iff.mp hvalid⟩
    · rintro ⟨rfl, hbounds⟩
      exact ⟨rfl, validate_eq_ok_iff.mpr hbounds⟩
  · intro hindent
    refine ⟨_, Settings.findKey_denotes (by decide) source, ?_⟩
    rw [loadWith_of_ok hread, validate_of_indent hindent]
    rfl
  · intro hindent hwidth
    refine ⟨_, Settings.findKey_denotes (by decide) source, ?_⟩
    rw [loadWith_of_ok hread, validate_of_width hindent hwidth]
    rfl

/-- The key stands in a comment first, where it assigns nothing, with a character of two bytes before
it; both settings are out of bounds. -/
theorem loadWith_decides_indent :
    let source := "# für indent = 4\r\n[render]\r\n\tindent\t= 9\r\nwidth = 0"
    loadWith parse source "hygen.toml" =
        .error (.invalid "hygen.toml" (some ⟨30, 6⟩) "render indent must be between 1 and 8 spaces")
      ∧ Settings.FirstAt "indent".toList source.toList 30
      ∧ String.Pos.Raw.extract source ⟨30⟩ ⟨36⟩ = "indent" := by
  intro source
  let fields : Toml.Entries :=
    [(⟨"indent", ⟨30, 6⟩⟩, .integer ⟨39, 1⟩ 9), (⟨"width", ⟨42, 5⟩⟩, .integer ⟨50, 1⟩ 0)]
  have hentries : Toml.read source
      = some [(⟨"render", ⟨20, 6⟩⟩, .table ⟨19, 8⟩ .header fields)] := by
    unfold source fields
    rfl
  have hsorted : Settings.sorted fields = fields := List.mergeSort_of_pairwise (by decide)
  have hrender : Settings.render (.table ⟨19, 8⟩ .header fields)
      = .ok { indent := 9, width := 0 } := by
    rw [Settings.render, hsorted]
    rfl
  have hread : parse source "hygen.toml" = .ok { render := { indent := 9, width := 0 } } := by
    unfold parse
    rw [hentries]
    simp only [Settings.sorted, List.mergeSort_singleton, List.foldlM_cons, List.foldlM_nil,
      Settings.rootField, if_true, hrender]
    rfl
  have hkey : Settings.findKey source "indent" = some ⟨30, 6⟩ := by decide
  have hload : loadWith parse source "hygen.toml" =
      .error (.invalid "hygen.toml" (some ⟨30, 6⟩)
        "render indent must be between 1 and 8 spaces") := by
    rw [loadWith_of_ok hread, validate_of_indent (by decide), hkey]
    rfl
  obtain ⟨place, hplace, hfault⟩ :=
    ((loadWith_decides parse source "hygen.toml").2 _ hread).2.1 (by decide)
  rw [hload] at hfault
  cases hfault
  exact ⟨hload, ((hplace.found 30 6).mp rfl).1, (hplace.written 30 6 rfl).2.2⟩

end Config

end Hygiene
