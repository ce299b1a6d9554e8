import Prefill.Proofs.Decoding
import Prefill.Proofs.Enumeration
import Prefill.Proofs.Lines
import Prefill.Proofs.Nesting

/-!
The probe for helper files. It reads a file line by line and stops at the activation line, so it
answers as the test on the whole text does, and for a file that is no text it says that it is no
helper, as long as what makes it no text does not stand behind the activation line. There the file
passes for a helper file and loading the project fails on it.

* `byteLines_encode_append`: the lines of the bytes of a text;
* `exists_of_probeLines`: what the probe has read when it says yes;
* `overlooked_iff`: the files that are no text and pass for helper files;
* `overlooked_of_load`, `load_of_overlooked`: these are the files that loading fails on.
-/

namespace Prefill

open Text

namespace Marker

open Utf8 (Bytes encode decode?)

/-! ## Lines of bytes -/

theorem byteLines_cons {b : UInt8} {rest line : Bytes} {more : List Bytes} (notFeed : b ≠ 0x0a)
    (notEnding : b = 0x0d → rest.head? ≠ some 0x0a) (h : byteLines rest = line :: more) :
    byteLines (b :: rest) = (b :: line) :: more := by
  rw [byteLines, h]
  · rintro rest rfl rfl
    exact notEnding rfl rfl
  · exact notFeed

/-- A line that ends in a line feed alone. -/
theorem byteLines_feed {front : Bytes} (noFeed : 0x0a ∉ front)
    (noReturn : front.getLast? ≠ some 0x0d) (rest : Bytes) :
    byteLines (front ++ 0x0a :: rest) = front :: byteLines rest := by
  induction front with
  | nil => rw [List.nil_append, byteLines]
  | cons b front ih =>
    rw [List.mem_cons, not_or] at noFeed
    cases front with
    | nil =>
      refine byteLines_cons (Ne.symm noFeed.1) ?_ (ih noFeed.2 (by simp))
      rintro rfl
      exact absurd rfl noReturn
    | cons d front =>
      refine byteLines_cons (Ne.symm noFeed.1) ?_ (ih noFeed.2 (by simpa using noReturn))
      intro _ next
      obtain rfl := Option.some.inj next
      exact noFeed.2 List.mem_cons_self

/-- A line that ends in a carriage return and a line feed. -/
theorem byteLines_return {front : Bytes} (noFeed : 0x0a ∉ front) (rest : Bytes) :
    byteLines (front ++ 0x0d :: 0x0a :: rest) = front :: byteLines rest := by
  induction front with
  | nil => rw [List.nil_append, byteLines]
  | cons b front ih =>
    rw [List.mem_cons, not_or] at noFeed
    refine byteLines_cons (Ne.symm noFeed.1) ?_ (ih noFeed.2)
    intro _ next
    cases front with
    | nil => cases next
    | cons d front =>
      obtain rfl := Option.some.inj next
      exact noFeed.2 List.mem_cons_self

/-- The last line may have no ending. -/
theorem byteLines_last {bytes : Bytes} (noFeed : 0x0a ∉ bytes) (someByte : bytes ≠ []) :
    byteLines bytes = [bytes] := by
  induction bytes with
  | nil => exact absurd rfl someByte
  | cons b rest ih =>
    rw [List.mem_cons, not_or] at noFeed
    cases rest with
    | nil =>
      rw [byteLines]
      · rfl
      · rintro _ _ ⟨⟩
      · exact Ne.symm noFeed.1
    | cons d rest =>
      refine byteLines_cons (Ne.symm noFeed.1) ?_ (ih noFeed.2 (by simp))
      intro _ next
      obtain rfl := Option.some.inj next
      exact noFeed.2 List.mem_cons_self

theorem feed_mem_encode {text : Text} : 0x0a ∈ encode text ↔ '\n' ∈ text :=
  Utf8.mem_encode_iff (d := '\n') (by decide) rfl

theorem return_getLast?_encode {text : Text} :
    (encode text).getLast? = some 0x0d ↔ text.getLast? = some '\r' :=
  Utf8.getLast?_encode_iff (d := '\r') (by decide) rfl

/-- A line of a text is a line of its bytes. -/
theorem byteLines_line {line : Line} (formed : line.WellFormed) (ended : line.ending ≠ [])
    (rest : Bytes) : byteLines (encode line.raw ++ rest) = encode line.body :: byteLines rest := by
  have noFeed : 0x0a ∉ encode line.body := mt feed_mem_encode.mp formed.noBreak
  rw [Line.raw, Utf8.encode_append, List.append_assoc]
  obtain empty | feed | both := formed.ending
  · exact absurd empty ended
  · rw [feed]
    exact byteLines_feed noFeed (mt return_getLast?_encode.mp (formed.noReturn feed)) rest
  · rw [both]
    exact byteLines_return noFeed rest

/-- **The lines of a text are those of its bytes**, whatever follows a text that ends in a line
feed. -/
theorem byteLines_encode_append {text : Text} {rest : Bytes}
    (closed : rest = [] ∨ text = [] ∨ text.getLast? = some '\n') :
    byteLines (encode text ++ rest) =
      (lines text).map (fun line => encode line.body) ++ byteLines rest := by
  induction measured : text.length using Nat.strongRecOn generalizing text with
  | ind size ih =>
    by_cases feeds : '\n' ∈ text
    · obtain ⟨front, tail, rfl, noBreak⟩ := List.eq_append_cons_of_mem feeds
      obtain ⟨line, formed, ended, raw⟩ := exists_line_of_feed noBreak
      have first : front ++ '\n' :: tail = line.raw ++ tail := by simp [raw]
      have shorter : tail.length < size := by
        rw [← measured, List.length_append, List.length_cons]
        omega
      have closed : rest = [] ∨ tail = [] ∨ tail.getLast? = some '\n' := by
        cases tail with
        | nil => exact .inr (.inl rfl)
        | cons c tail => simpa [List.getLast?_append, List.getLast?_cons] using closed
      rw [first, lines_append formed ended, Utf8.encode_append, List.append_assoc,
        byteLines_line formed ended, ih _ shorter closed rfl, List.map_cons, List.cons_append]
    · by_cases empty : text = []
      · subst empty
        rfl
      · have last : rest = [] := by
          obtain last | absent | feed := closed
          · exact last
          · exact absurd absent empty
          · exact absurd (List.mem_of_getLast? feed) feeds
        have formed : Line.WellFormed ⟨text, []⟩ := ⟨feeds, by simp, by simp⟩
        have alone : lines text = [⟨text, []⟩] := by
          simpa [Line.raw] using lines_single formed (by simpa [Line.raw] using empty)
        rw [last, alone, List.append_nil,
          byteLines_last (mt feed_mem_encode.mp feeds) (Utf8.encode_ne_nil empty)]
        rfl

/-! ## The probe -/

/-- Whether one of the first lines of a text makes it a helper file. -/
def activatesWithin (count : Nat) (text : Text) : Bool :=
  ((lines text).take count).any fun line => isActivation line.body

theorem probeLines_append (texts : List Text) (more : List Bytes) :
    probeLines (texts.map encode ++ more) = (texts.any isActivation || probeLines more) := by
  induction texts with
  | nil => rfl
  | cons text texts ih =>
    rw [List.map_cons, List.cons_append, probeLines, Utf8.decode?_encode]
    simp [ih, Bool.or_assoc]

/-- The probe reads the lines of a text as the test does, and then goes on with what follows. -/
theorem probeLines_take_encode {text : Text} {rest : Bytes} (count : Nat)
    (closed : rest = [] ∨ text = [] ∨ text.getLast? = some '\n') :
    probeLines ((byteLines (encode text ++ rest)).take count) =
      (activatesWithin count text ||
        probeLines ((byteLines rest).take (count - (lines text).length))) := by
  have bodies : ((lines text).map fun line => encode line.body).take count =
      (((lines text).take count).map Line.body).map encode := by
    rw [List.map_map, List.map_take]
    rfl
  rw [byteLines_encode_append closed, List.take_append, bodies, probeLines_append, List.length_map,
    List.any_map]
  rfl

/-- The line that bytes start with, up to their first line feed. -/
theorem exists_ending {front : Bytes} (noFeed : 0x0a ∉ front) :
    ∃ body ending, front ++ [0x0a] = body ++ encode ending ∧ ending.getLast? = some '\n' ∧
      (∀ rest, byteLines (front ++ 0x0a :: rest) = body :: byteLines rest) ∧
      ∀ text, body = encode text → Line.WellFormed ⟨text, ending⟩ := by
  by_cases returns : front.getLast? = some 0x0d
  · obtain ⟨body, rfl⟩ := List.getLast?_eq_some_iff.mp returns
    have inner : 0x0a ∉ body := by simpa using noFeed
    have both : encode ['\r', '\n'] = [0x0d, 0x0a] := rfl
    refine ⟨body, ['\r', '\n'], by simp [both], rfl, ?_, ?_⟩
    · intro rest
      simpa using byteLines_return inner rest
    · rintro text rfl
      exact ⟨mt feed_mem_encode.mpr inner, by simp, by simp⟩
  · refine ⟨front, ['\n'], rfl, rfl, byteLines_feed noFeed returns, ?_⟩
    rintro text rfl
    exact ⟨mt feed_mem_encode.mpr noFeed, by simp, fun _ => mt return_getLast?_encode.mpr returns⟩

/-- The first line of a file, and what makes it a line of a text. -/
theorem exists_first_line {bytes : Bytes} (someByte : bytes ≠ []) :
    ∃ body ending rest, bytes = body ++ encode ending ++ rest ∧
      byteLines bytes = body :: byteLines rest ∧ rest.length < bytes.length ∧
      (rest = [] ∨ ending.getLast? = some '\n') ∧
      ∀ text, body = encode text → Line.WellFormed ⟨text, ending⟩ := by
  by_cases feeds : 0x0a ∈ bytes
  · obtain ⟨front, rest, rfl, noFeed⟩ := List.eq_append_cons_of_mem feeds
    obtain ⟨body, ending, whole, feed, first, formed⟩ := exists_ending noFeed
    refine ⟨body, ending, rest, by simp [← whole], first rest, ?_, .inr feed, formed⟩
    rw [List.length_append, List.length_cons]
    omega
  · refine ⟨bytes, [], [], by simp [encode], ?_, List.length_pos_iff.mpr someByte, .inl rfl, ?_⟩
    · rw [byteLines_last feeds someByte, byteLines]
    · rintro text rfl
      exact ⟨mt feed_mem_encode.mpr feeds, by simp, by simp⟩

theorem activatesWithin_single {line : Line} (formed : line.WellFormed)
    (active : isActivation line.body = true) (count : Nat) :
    activatesWithin (count + 1) line.raw = true := by
  have someText : line.raw ≠ [] := by
    intro empty
    obtain ⟨noBody, -⟩ := List.append_eq_nil_iff.mp empty
    rw [noBody] at active
    cases active
  simp [activatesWithin, lines_single formed someText, active]

/-- **What the probe has read.** It says yes behind the lines of a text that makes a helper file. -/
theorem exists_of_probeLines {bytes : Bytes} {count : Nat}
    (h : probeLines ((byteLines bytes).take count) = true) :
    ∃ text rest, bytes = encode text ++ rest ∧ activatesWithin count text = true ∧
      (rest = [] ∨ text.getLast? = some '\n') := by
  induction measured : bytes.length using Nat.strongRecOn generalizing bytes count with
  | ind size ih =>
    by_cases empty : bytes = []
    · rw [empty, byteLines, List.take_nil] at h
      cases h
    obtain ⟨body, ending, tail, whole, first, shorter, closed, formed⟩ := exists_first_line empty
    cases count with
    | zero => cases h
    | succ count =>
      rw [first, List.take_succ_cons, probeLines] at h
      split at h
      · cases h
      · rename_i text decoded
        obtain rfl := Utf8.decode?_eq_some_iff.mp decoded
        have formed := formed text rfl
        have read : bytes = encode (Line.raw ⟨text, ending⟩) ++ tail := by
          rw [whole, Line.raw, Utf8.encode_append]
        by_cases active : isActivation text = true
        · refine ⟨_, tail, read, activatesWithin_single formed active count, ?_⟩
          exact closed.imp_right fun feed => by simp [Line.raw, List.getLast?_append, feed]
        · have later : probeLines ((byteLines tail).take count) = true := by
            simpa [active] using h
          obtain ⟨more, rest, rfl, within, closedToo⟩ := ih _ (measured ▸ shorter) later rfl
          -- a line without an ending is the last, and nothing makes a helper file behind it
          have ended : ending ≠ [] := by
            rintro rfl
            obtain nothing | feed := closed
            · rw [nothing, byteLines, List.take_nil] at later
              cases later
            · cases feed
          refine ⟨Line.raw ⟨text, ending⟩ ++ more, rest, ?_, ?_, ?_⟩
          · rw [read, Utf8.encode_append, List.append_assoc]
          · rw [activatesWithin, lines_append formed ended, List.take_succ_cons]
            exact Bool.or_eq_true_iff.mpr (.inr within)
          · exact closedToo.imp_right fun last => by simp [List.getLast?_append, last]

/-- Files that start as the text of a helper file does, and are no text behind that. -/
def Overlooked (bytes : Bytes) : Prop :=
  ∃ text rest, bytes = encode text ++ rest ∧ text.getLast? = some '\n' ∧ activates text = true ∧
    decode? rest = none

theorem probe_encode (text : Text) : probe (encode text) = activates text := by
  have whole : probeLines ((byteLines (encode text ++ [])).take activationWindow) = _ :=
    probeLines_take_encode activationWindow (.inl rfl)
  rw [List.append_nil, byteLines, List.take_nil, probeLines, Bool.or_false] at whole
  exact whole

/-- **The files that the probe takes for helper files, and that are no text.** -/
theorem overlooked_iff {bytes : Bytes} :
    Overlooked bytes ↔ probe bytes = true ∧ decode? bytes = none := by
  constructor
  · rintro ⟨text, rest, rfl, feed, active, damaged⟩
    constructor
    · rw [probe, probeLines_take_encode _ (.inr (.inr feed))]
      exact Bool.or_eq_true_iff.mpr (.inl active)
    · rw [Utf8.decode?_encode_append, damaged, Option.map_none]
  · rintro ⟨probed, damaged⟩
    obtain ⟨text, rest, rfl, active, closed⟩ := exists_of_probeLines probed
    rw [Utf8.decode?_encode_append, Option.map_eq_none_iff] at damaged
    obtain rfl | feed := closed
    · simp [decode?] at damaged
    · exact ⟨text, rest, rfl, feed, active, damaged⟩

end Marker

/-! ## Loading -/

/-- A loop fails where one of its rounds does. -/
theorem exists_of_mapM_error {ε α β : Type} {f : α → Except ε β} {list : List α} {e : ε}
    (h : list.mapM f = .error e) : ∃ a ∈ list, f a = .error e := by
  induction list with
  | nil => cases h
  | cons a rest ih =>
    rw [List.mapM_cons] at h
    cases first : f a with
    | error other =>
      obtain rfl : other = e := by simpa [first, bind, Except.bind] using h
      exact ⟨a, by simp, first⟩
    | ok found =>
      cases others : rest.mapM f with
      | error other =>
        obtain rfl : other = e := by simpa [first, others, bind, Except.bind] using h
        obtain ⟨b, member, failed⟩ := ih others
        exact ⟨b, List.mem_cons_of_mem _ member, failed⟩
      | ok more => simp [first, others, bind, Except.bind, pure, Except.pure] at h

namespace Project

variable {top : Tree} {config : Config} {place : Place} {excluded : List Glob}

/-- Reading a file that was found fails if it is no text. -/
theorem readHelper_eq_error_iff (formed : top.WellFormed) {address : Address}
    {content : Utf8.Bytes} (found : .source address content ∈ Discovery.found top excluded place)
    {e : LoadError} :
    readHelper top place (place.below address) = .error e ↔
      Utf8.decode? content = none ∧ e = .unreadable (place.below address).path .invalidText := by
  obtain ⟨_, -, there, ⟨rfl, -⟩, -⟩ := (Discovery.mem_found formed).mp found
  have there : top.at? (place.address ++ address) = some (.file content) := there
  simp only [readHelper, Tree.text, Place.below_address, there]
  cases Utf8.decode? content <;> simp [eq_comm]

theorem load_eq_unreadable_iff (patterns : config.excluded = .ok excluded) {path : Path}
    {cause : FileError} :
    (load top config place).result = .error (.unreadable path cause) ↔
      (Discovery.ofTree top excluded place).helpers.mapM (readHelper top place) =
        .error (.unreadable path cause) := by
  rw [load_eq top patterns]
  dsimp only
  cases read : (Discovery.ofTree top excluded place).helpers.mapM (readHelper top place) with
  | error e => simp [Journal.andThen, Journal.ofExcept]
  | ok files =>
    refine iff_of_false ?_ (by simp)
    intro failed
    -- what comes after the files were read fails with a clash only
    obtain ⟨clash, -, same⟩ := Journal.mapError_result_eq_error_iff.mp failed
    cases same

/-- **The files that cannot be loaded:** what loading says of one. -/
theorem overlooked_of_load (formed : top.WellFormed) {path : Path} {cause : FileError}
    (failed : (load top config place).result = .error (.unreadable path cause)) :
    cause = .invalidText ∧ ∃ address content, Run.Finds top config place (.source address content) ∧
      Marker.Overlooked content ∧ path = (place.below address).path := by
  cases patterns : config.excluded with
  | error bad =>
    simp [load, patterns, Except.mapError, Journal.bind_eq, Journal.andThen, Journal.ofExcept]
      at failed
  | ok excluded =>
    rw [load_eq_unreadable_iff patterns] at failed
    obtain ⟨helper, isHelper, unread⟩ := exists_of_mapM_error failed
    obtain ⟨address, content, found, active, rfl⟩ := Run.mem_helpers.mp isHelper
    obtain ⟨damaged, same⟩ := (readHelper_eq_error_iff formed found).mp unread
    obtain ⟨rfl, rfl⟩ := LoadError.unreadable.inj same
    exact ⟨rfl, address, content, ⟨excluded, patterns, found⟩,
      Marker.overlooked_iff.mpr ⟨active, damaged⟩, rfl⟩

/-- One such file is enough for loading to fail. -/
theorem load_of_overlooked (formed : top.WellFormed) {address : Address} {content : Utf8.Bytes}
    (finds : Run.Finds top config place (.source address content))
    (overlooked : Marker.Overlooked content) :
    ∃ path, (load top config place).result = .error (.unreadable path .invalidText) := by
  obtain ⟨excluded, patterns, found⟩ := finds
  obtain ⟨active, damaged⟩ := Marker.overlooked_iff.mp overlooked
  have isHelper := Run.mem_helpers.mpr ⟨address, content, found, active, rfl⟩
  simp only [load_eq_unreadable_iff patterns]
  cases read : (Discovery.ofTree top excluded place).helpers.mapM (readHelper top place) with
  | ok files =>
    obtain ⟨file, -, readable⟩ := exists_second (forall₂_of_mapM read) isHelper
    rw [(readHelper_eq_error_iff formed found).mpr ⟨damaged, rfl⟩] at readable
    cases readable
  | error e =>
    obtain ⟨helper, another, unread⟩ := exists_of_mapM_error read
    obtain ⟨there, other, foundToo, -, rfl⟩ := Run.mem_helpers.mp another
    obtain ⟨-, rfl⟩ := (readHelper_eq_error_iff formed foundToo).mp unread
    exact ⟨_, rfl⟩

/-- **The probe and the test on the whole text.** They agree on every text, and on every other file
except for those with the damage behind the activation line. Such a file passes for a helper file,
and loading fails with a file that is no text exactly if there is one. -/
theorem probe_agrees_iff (bytes : Utf8.Bytes) (formed : top.WellFormed) (config : Config)
    (place : Place) :
    (∀ text, Marker.probe (Utf8.encode text) = Marker.activates text) ∧
      ((Marker.probe bytes = true ↔
          ∃ text, Utf8.decode? bytes = some text ∧ Marker.activates text = true) ↔
        ¬ Marker.Overlooked bytes) ∧
      (Marker.probe bytes = true ∧ Utf8.decode? bytes = none ↔ Marker.Overlooked bytes) ∧
      (∀ address content, Run.Finds top config place (.source address content) →
        Marker.Overlooked content →
          ∃ path, (load top config place).result = .error (.unreadable path .invalidText)) ∧
      ∀ path cause, (load top config place).result = .error (.unreadable path cause) →
        cause = .invalidText ∧ ∃ address content,
          Run.Finds top config place (.source address content) ∧ Marker.Overlooked content ∧
            path = (place.below address).path := by
  refine ⟨Marker.probe_encode, ?_, Marker.overlooked_iff.symm,
    fun _ _ finds overlooked => load_of_overlooked formed finds overlooked,
    fun _ _ failed => overlooked_of_load formed failed⟩
  rw [Marker.overlooked_iff]
  cases decoded : Utf8.decode? bytes with
  | none => simp
  | some text =>
    obtain rfl := Utf8.decode?_eq_some_iff.mp decoded
    simp [Marker.probe_encode]

/-- A helper file with a byte behind its activation line that belongs to no character. -/
def damagedHelper : Utf8.Bytes := Utf8.encode "//go:ahead functions\n".toList ++ [0xff]

/-- A source with such a byte before the activation line. -/
def damagedSource : Utf8.Bytes := 0xff :: Utf8.encode "\n//go:ahead functions\n".toList

def damagedTree : Tree :=
  .directory [("proj".toList, .directory
    [("a.go".toList, .file damagedSource), ("h.go".toList, .file damagedHelper)])]

theorem damagedTree_formed : damagedTree.WellFormed := by
  refine .directory (by decide) ?_
  simp only [List.mem_singleton, forall_eq]
  refine .directory (by decide) ?_
  simp only [List.mem_cons, List.not_mem_nil, or_false, forall_eq_or_imp, forall_eq]
  exact ⟨.file _, .file _⟩

theorem damagedHelper_found :
    .source ["h.go".toList] damagedHelper ∈ Discovery.found damagedTree [] Project.proj := by
  decide +kernel

/-- The project with both files cannot be loaded, and it is the helper file that is at fault. -/
theorem damaged_project_fails :
    damagedTree.WellFormed ∧ Marker.Overlooked damagedHelper ∧ ¬ Marker.Overlooked damagedSource ∧
      ∃ path, (load damagedTree {} Project.proj).result =
        .error (.unreadable path .invalidText) := by
  obtain ⟨-, -, helper, fails, -⟩ :=
    probe_agrees_iff damagedHelper damagedTree_formed {} Project.proj
  obtain ⟨-, -, source, -⟩ := probe_agrees_iff damagedSource damagedTree_formed {} Project.proj
  have overlooked : Marker.Overlooked damagedHelper := helper.mp (by decide +kernel)
  have noticed : ¬ Marker.Overlooked damagedSource := mt source.mpr (by decide +kernel)
  have finds : Run.Finds damagedTree {} Project.proj (.source ["h.go".toList] damagedHelper) :=
    ⟨[], rfl, damagedHelper_found⟩
  exact ⟨damagedTree_formed, overlooked, noticed, fails _ _ finds overlooked⟩

/-- The helper file is no text, passes for a helper file all the same and makes loading fail. -/
theorem damaged_helper_probed :
    Utf8.decode? damagedHelper = none ∧ Marker.probe damagedHelper = true ∧
      (Discovery.ofTree damagedTree [] Project.proj).helpers =
        [Project.proj.below ["h.go".toList]] ∧
      (load damagedTree {} Project.proj).result =
        .error (.unreadable ⟨"proj/h.go".toList⟩ .invalidText) := by
  have helpers : (Discovery.ofTree damagedTree [] Project.proj).helpers =
      [Project.proj.below ["h.go".toList]] := by decide +kernel
  have patterns : Config.excluded {} = .ok [] := rfl
  have damaged : Utf8.decode? damagedHelper = none := by decide +kernel
  have unread : readHelper damagedTree Project.proj (Project.proj.below ["h.go".toList]) =
      .error (.unreadable ⟨"proj/h.go".toList⟩ .invalidText) :=
    (readHelper_eq_error_iff damagedTree_formed damagedHelper_found).mpr ⟨damaged, rfl⟩
  refine ⟨damaged, by decide +kernel, helpers, ?_⟩
  rw [load_eq_unreadable_iff patterns, helpers, List.mapM_cons, unread]
  rfl

end Project

end Prefill
