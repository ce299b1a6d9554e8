import Prefill.Argument
import Prefill.Proofs.Comments

/-!
Cutting at colons. The scan for the colons between arguments starts afresh after each of them, so
every piece but the last ends outside quotes and brackets (`strung_cutAtColons`). Pieces of that
kind, written with colons between them, are cut into the same pieces again (`split_join`).

A piece can be trimmed before it is written (`Uncut.trim`, `Balanced.trim`): the blanks at its ends
stand outside quotes, except at the end of a last piece that leaves a quote open.
-/

namespace Prefill

open Text

namespace Text

/-! ### Trimmed texts -/

/-- A text with no blank at either end. -/
structure Trimmed (text : Text) : Prop where
  first : ∀ c ∈ text.head?, isBlank c = false
  last : ∀ c ∈ text.getLast?, isBlank c = false

theorem trimEnd_of_last {text : Text} (last : ∀ c ∈ text.getLast?, isBlank c = false) :
    trimEnd text = text := by
  have back : text.reverse.dropWhile isBlank = text.reverse := by
    cases shown : text.reverse with
    | nil => rfl
    | cons c rest =>
      have solid := last c (by rw [List.getLast?_eq_head?_reverse, shown]; rfl)
      exact List.dropWhile_cons_of_neg (by simp [solid])
  rw [trimEnd, back, List.reverse_reverse]

theorem Trimmed.trim_eq {text : Text} (h : Trimmed text) : trim text = text := by
  have start : trimStart text = text := by
    cases text with
    | nil => rfl
    | cons c rest => exact List.dropWhile_cons_of_neg (by simp [h.first c rfl])
  rw [trim, start, trimEnd_of_last h.last]

theorem trimmed_trim (text : Text) : Trimmed (trim text) := by
  refine ⟨fun c first => ?_, fun c last => isBlank_of_getLast?_trim last⟩
  obtain ⟨tail, whole⟩ := exists_trimEnd_append (trimStart text)
  have front : (trimStart text).head? = some c := by
    rw [whole, List.head?_append, ← trim, first]
    rfl
  have solid := List.head?_dropWhile_not isBlank text
  rw [trimStart] at front
  rwa [front] at solid

theorem trim_trim (text : Text) : trim (trim text) = trim text := (trimmed_trim text).trim_eq

/-- Trimming takes blanks off both ends. -/
theorem exists_trim_around (text : Text) :
    ∃ lead trail, text = lead ++ (trim text ++ trail) ∧ (∀ c ∈ lead, isBlank c = true) ∧
      ∀ c ∈ trail, isBlank c = true := by
  refine ⟨text.takeWhile isBlank, ((trimStart text).reverse.takeWhile isBlank).reverse, ?_,
    fun c member => List.mem_takeWhile_imp member,
    fun c member => List.mem_takeWhile_imp (List.mem_reverse.mp member)⟩
  have back := congrArg List.reverse
    (List.takeWhile_append_dropWhile (p := isBlank) (l := (trimStart text).reverse))
  rw [List.reverse_append, List.reverse_reverse] at back
  rw [trim, trimEnd, back, trimStart, List.takeWhile_append_dropWhile]

end Text

namespace Argument

/-! ### The scan -/

/-- The scan before an argument. -/
def Scan.fresh : Scan := ⟨none, false, 0⟩

/-- The scan after a text, if nothing in the text separates arguments. -/
def Scan.through? (scan : Scan) : Text → Option Scan
  | [] => some scan
  | c :: rest => if scan.separates c then none else (scan.step c).through? rest

theorem Scan.through?_append (scan : Scan) (front back : Text) :
    scan.through? (front ++ back) = (scan.through? front).bind fun left => left.through? back := by
  induction front generalizing scan with
  | nil => rfl
  | cons c front ih =>
    rw [List.cons_append, through?, through?]
    split
    · rfl
    · exact ih _

/-- What a scan can be: a backslash counts inside quotes only, and there are three quotes. -/
structure Scan.Sound (scan : Scan) : Prop where
  outside : scan.quote = none → scan.escaped = false
  inside : ∀ quote ∈ scan.quote, quote = '"' ∨ quote = '`' ∨ quote = '\''

theorem Scan.sound_fresh : fresh.Sound := ⟨fun _ => rfl, by simp [fresh]⟩

theorem Scan.Sound.step {scan : Scan} (sound : scan.Sound) (c : Char) : (scan.step c).Sound := by
  obtain ⟨quote, escaped, depth⟩ := scan
  obtain ⟨outside, inside⟩ := sound
  cases quote with
  | some quote =>
    dsimp only [Scan.step]
    repeat' split
    · exact ⟨fun _ => rfl, inside⟩
    · exact ⟨by simp, inside⟩
    · rename_i unescaped _ _
      exact ⟨fun _ => by simpa using unescaped, by simp⟩
    · exact ⟨outside, inside⟩
  | none =>
    have plain : escaped = false := outside rfl
    dsimp only [Scan.step]
    split
    · rename_i opens
      refine ⟨by simp, fun quote member => ?_⟩
      obtain rfl : c = quote := by simpa using member
      simpa [or_assoc] using opens
    · repeat' split
      all_goals exact ⟨fun _ => plain, by simp⟩

theorem Scan.Sound.through? {scan left : Scan} {text : Text} (sound : scan.Sound)
    (h : scan.through? text = some left) : left.Sound := by
  induction text generalizing scan with
  | nil => exact Option.some.inj h ▸ sound
  | cons c rest ih =>
    rw [Scan.through?] at h
    split at h
    · cases h
    · exact ih (sound.step c) h

/-- Arguments are separated where the scan is fresh. -/
theorem Scan.Sound.eq_fresh {scan : Scan} {c : Char} (sound : scan.Sound)
    (h : scan.separates c = true) : scan = fresh := by
  obtain ⟨quote, escaped, depth⟩ := scan
  simp only [Scan.separates, Bool.and_eq_true, Option.isNone_iff_eq_none, beq_iff_eq] at h
  obtain ⟨⟨-, rfl⟩, rfl⟩ := h
  obtain rfl : escaped = false := sound.outside rfl
  rfl

/-! ### Characters that change nothing -/

/-- The characters that mean something outside quotes. -/
def marks : List Char := ['"', '`', '\'', '(', '[', '\x7b', ')', ']', '\x7d', ':']

theorem isBlank_notMem_marks {c : Char} (h : isBlank c = true) : c ∉ marks := by
  have solid : marks.all (fun d => !isBlank d) = true := by decide
  intro member
  have notBlank := List.all_eq_true.mp solid c member
  rw [h] at notBlank
  cases notBlank

theorem Scan.step_of_notMem {scan : Scan} {c : Char} (outside : scan.quote = none)
    (h : c ∉ marks) : scan.separates c = false ∧ scan.step c = scan := by
  simp only [marks, List.mem_cons, List.not_mem_nil, or_false, not_or] at h
  simp [separates, step, outside, h]

theorem Scan.through?_cons_of_notMem {scan : Scan} {c : Char} (outside : scan.quote = none)
    (h : c ∉ marks) (rest : Text) : scan.through? (c :: rest) = scan.through? rest := by
  obtain ⟨goes, same⟩ := step_of_notMem outside h
  rw [through?, goes, same]
  rfl

theorem Scan.through?_lead {lead : Text} (blanks : ∀ c ∈ lead, isBlank c = true) (text : Text) :
    fresh.through? (lead ++ text) = fresh.through? text := by
  induction lead with
  | nil => rfl
  | cons c lead ih =>
    rw [List.forall_mem_cons] at blanks
    rw [List.cons_append, through?_cons_of_notMem rfl (isBlank_notMem_marks blanks.1), ih blanks.2]

/-- A blank closes no quote. -/
theorem Scan.Sound.quote_step {scan : Scan} (sound : scan.Sound) {c : Char}
    (h : isBlank c = true) : (scan.step c).quote = scan.quote := by
  cases openQuote : scan.quote with
  | none => rw [(step_of_notMem openQuote (isBlank_notMem_marks h)).2, openQuote]
  | some quote =>
    have differ : c ≠ quote := by
      rintro rfl
      obtain rfl | rfl | rfl := sound.inside c openQuote
      all_goals exact absurd h (by decide)
    simp only [Scan.step, openQuote, differ]
    repeat' split
    all_goals first | exact openQuote | simp_all

/-- Blanks do not bring a scan back to its start. -/
theorem Scan.Sound.eq_fresh_of_trail {scan : Scan} {trail : Text} (sound : scan.Sound)
    (blanks : ∀ c ∈ trail, isBlank c = true) (h : scan.through? trail = some fresh) :
    scan = fresh := by
  induction trail generalizing scan with
  | nil => exact Option.some.inj h
  | cons c trail ih =>
    rw [List.forall_mem_cons] at blanks
    rw [Scan.through?] at h
    split at h
    · cases h
    · have next := ih (sound.step c) blanks.2 h
      have outside : scan.quote = none := by
        rw [← sound.quote_step blanks.1, next]
        rfl
      rwa [(step_of_notMem outside (isBlank_notMem_marks blanks.1)).2] at next

/-! ### Pieces -/

/-- A text in which nothing separates arguments. -/
def Uncut (text : Text) : Prop := ∃ scan, Scan.fresh.through? text = some scan

/-- A text in which nothing separates arguments, and which ends outside quotes and brackets. -/
def Balanced (text : Text) : Prop := Scan.fresh.through? text = some .fresh

theorem Balanced.uncut {text : Text} (h : Balanced text) : Uncut text := ⟨_, h⟩

theorem Uncut.trim {text : Text} (h : Uncut text) : Uncut (trim text) := by
  obtain ⟨scan, passes⟩ := h
  obtain ⟨lead, trail, whole, blanks, -⟩ := exists_trim_around text
  rw [whole, Scan.through?_lead blanks, Scan.through?_append] at passes
  obtain ⟨left, here, -⟩ := Option.bind_eq_some_iff.mp passes
  exact ⟨left, here⟩

theorem Balanced.trim {text : Text} (h : Balanced text) : Balanced (trim text) := by
  obtain ⟨lead, trail, whole, blanks, blanksToo⟩ := exists_trim_around text
  rw [Balanced, whole, Scan.through?_lead blanks, Scan.through?_append] at h
  obtain ⟨left, here, rest⟩ := Option.bind_eq_some_iff.mp h
  -- The blanks at the end close nothing, so the scan was fresh before them.
  obtain rfl := (Scan.sound_fresh.through? here).eq_fresh_of_trail blanksToo rest
  exact here

/-- Pieces of which each can stand before the next one: only the last may leave a quote or a bracket
open. -/
def Strung : List Text → Prop
  | [] => True
  | piece :: more => Uncut piece ∧ (more ≠ [] → Balanced piece) ∧ Strung more

theorem strung_cons {piece : Text} {more : List Text} {left : Scan}
    (passes : Scan.fresh.through? piece = some left) (closes : more ≠ [] → left = .fresh)
    (strung : Strung more) : Strung (piece :: more) := by
  refine ⟨⟨left, passes⟩, fun next => ?_, strung⟩
  rw [Balanced, passes, closes next]

theorem strung_of_balanced {pieces : List Text} (h : ∀ piece ∈ pieces, Balanced piece) :
    Strung pieces := by
  induction pieces with
  | nil => trivial
  | cons piece more ih =>
    rw [List.forall_mem_cons] at h
    exact ⟨h.1.uncut, fun _ => h.1, ih h.2⟩

theorem Strung.map {pieces : List Text} (h : Strung pieces) {f : Text → Text}
    (uncut : ∀ text, Uncut text → Uncut (f text))
    (balanced : ∀ text, Balanced text → Balanced (f text)) : Strung (pieces.map f) := by
  induction pieces with
  | nil => trivial
  | cons piece more ih =>
    obtain ⟨here, before, rest⟩ := h
    exact ⟨uncut _ here, fun next => balanced _ (before (by simpa using next)), ih rest⟩

theorem Strung.filter {pieces : List Text} (h : Strung pieces) (kept : Text → Bool) :
    Strung (pieces.filter kept) := by
  induction pieces with
  | nil => trivial
  | cons piece more ih =>
    obtain ⟨here, before, rest⟩ := h
    rw [List.filter_cons]
    split
    · refine ⟨here, fun next => before ?_, ih rest⟩
      rintro rfl
      exact next rfl
    · exact ih rest

/-! ### Cutting -/

theorem cutAtColons_of_through? {scan left : Scan} {text : Text}
    (h : scan.through? text = some left) : cutAtColons scan text = [text] := by
  induction text generalizing scan with
  | nil => rfl
  | cons c rest ih =>
    rw [Scan.through?] at h
    split at h
    · cases h
    · rename_i goes
      rw [cutAtColons, if_neg goes, ih h]

theorem cutAtColons_append {scan : Scan} {text : Text} (h : scan.through? text = some .fresh)
    (rest : Text) : cutAtColons scan (text ++ ':' :: rest) = text :: cutAtColons .fresh rest := by
  induction text generalizing scan with
  | nil =>
    obtain rfl := Option.some.inj h
    rfl
  | cons c text ih =>
    rw [Scan.through?] at h
    split at h
    · cases h
    · rename_i goes
      rw [List.cons_append, cutAtColons, if_neg goes, ih h]

/-- **What is cut.** The first piece goes on from where the scan stands, and each piece that has one
after it ends where arguments are separated. -/
theorem strung_cutAtColons {scan : Scan} (sound : scan.Sound) (text : Text) :
    ∃ piece more left, cutAtColons scan text = piece :: more ∧ scan.through? piece = some left ∧
      (more ≠ [] → left = .fresh) ∧ Strung more := by
  induction text generalizing scan with
  | nil => exact ⟨[], [], scan, rfl, rfl, by simp, trivial⟩
  | cons c rest ih =>
    rw [cutAtColons]
    split
    · rename_i separates
      -- The scan goes on after the colon as it was before, and there it was fresh.
      obtain rfl := sound.eq_fresh separates
      obtain ⟨piece, more, left, cut, passes, closes, strung⟩ := ih sound
      refine ⟨[], _, .fresh, rfl, rfl, fun _ => rfl, ?_⟩
      rw [cut]
      exact strung_cons passes closes strung
    · rename_i goes
      obtain ⟨piece, more, left, cut, passes, closes, strung⟩ := ih (sound.step c)
      refine ⟨c :: piece, more, left, by rw [cut], ?_, closes, strung⟩
      rw [Scan.through?, if_neg goes, passes]

theorem strung_split (tail : Text) : Strung (split tail) := by
  obtain ⟨piece, more, left, cut, passes, closes, strung⟩ :=
    strung_cutAtColons Scan.sound_fresh tail
  have all : Strung (cutAtColons .fresh tail) := by
    rw [cut]
    exact strung_cons passes closes strung
  exact (all.map (fun _ => Uncut.trim) fun _ => Balanced.trim).filter _

theorem joinWith_cons_cons (piece next : Text) (more : List Text) :
    joinWith ":" (piece :: next :: more) = piece ++ ':' :: joinWith ":" (next :: more) := by
  have mark : ":".toList = [':'] := by decide
  simp [joinWith, List.intercalate_cons_cons, mark]

theorem cutAtColons_join {pieces : List Text} (strung : Strung pieces) (somePiece : pieces ≠ []) :
    cutAtColons .fresh (joinWith ":" pieces) = pieces := by
  induction pieces with
  | nil => exact absurd rfl somePiece
  | cons piece more ih =>
    obtain ⟨⟨left, passes⟩, before, rest⟩ := strung
    cases more with
    | nil =>
      rw [joinWith, List.intercalate_singleton]
      exact cutAtColons_of_through? passes
    | cons next more =>
      rw [joinWith_cons_cons, cutAtColons_append (before (by simp)), ih rest (by simp)]

/-- **Splitting what was joined.** Pieces with nothing to trim that can stand one before the other
come back from the text that they make with colons between them. -/
theorem split_join {pieces : List Text} (strung : Strung pieces)
    (solid : ∀ piece ∈ pieces, Trimmed piece ∧ piece ≠ []) :
    split (joinWith ":" pieces) = pieces := by
  by_cases none : pieces = []
  · rw [none]
    rfl
  · have cut := cutAtColons_join strung none
    have same : pieces.map trim = pieces := by
      rw [List.map_congr_left fun piece member => (solid piece member).1.trim_eq, List.map_id']
    have kept : pieces.filter (fun piece => !piece.isEmpty) = pieces :=
      List.filter_eq_self.mpr fun piece member => by simpa using (solid piece member).2
    rw [Scan.fresh] at cut
    rw [split, cut, same, kept]

end Argument

end Prefill
