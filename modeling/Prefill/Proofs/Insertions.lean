import Prefill.Proofs.Carrying
import Prefill.Proofs.Restoring

/-!
The regions of a file and their places. A region goes behind the interface of the marker that asks
for it, so regions stand in the order of their markers (`insertionsOf_pairwise`).

A region behind the last line gives that line a line feed if it has none. So the same file is written
whether or not the last line had one before (`written_terminated`), if what injection asks of the
file is the same with it and without it (`Source.outline`).
-/

namespace Prefill

open Text

namespace Go

/-- What injection asks of a file: the keys of its declarations, its interfaces, its imports, and
where its head ends. -/
def Source.outline (source : Source) : List Text × List Interface × List Import × Nat :=
  (source.declarations.flatMap (·.keys), source.interfaces, source.imports, source.preambleEnd)

end Go

namespace Injection

open Go Region

/-! ### Regions in order -/

theorem requests_pairwise (lines : List Text) :
    (requests lines).Pairwise fun a b => a.index < b.index := by
  induction lines with
  | nil => exact .nil
  | cons line rest ih =>
    rw [requests_cons, List.pairwise_append]
    refine ⟨?_, ?_, ?_⟩
    · have short : (requests [line]).length ≤ 1 := List.length_filterMap_le ..
      generalize requests [line] = here at short
      match here, short with
      | [], _ => exact .nil
      | [r], _ => exact List.pairwise_singleton ..
    · rw [List.pairwise_map]
      exact ih.imp fun lt => Nat.succ_lt_succ lt
    · intro a first b later
      obtain ⟨r, -, rfl⟩ := List.mem_map.mp later
      rw [index_of_requests_singleton first]
      exact Nat.succ_pos _

theorem copiesFrom_requests (project : Project) (depth : Nat) (keys : List Text)
    (requests : List Request) :
    ((copiesFrom project depth keys requests).map Copy.request).Sublist requests := by
  induction requests generalizing keys with
  | nil => exact List.Sublist.refl _
  | cons request rest ih =>
    unfold copiesFrom
    split
    · exact (ih keys).cons request
    · rename_i copy found
      have asked : copy.request = request := by
        obtain ⟨_, -, rfl⟩ := Option.map_eq_some_iff.mp found
        rfl
      rw [List.map_cons, asked]
      exact (ih _).cons_cons request

/-- Of two markers the lower one has its interface at the same place or below. -/
theorem stop_le_of_request_lt {text : Text} {a b : Request} (lt : a.index < b.index)
    {interface interface' : Interface}
    (found : interfaceFor (Source.ofText text) (rawLines text) a = .ok interface)
    (found' : interfaceFor (Source.ofText text) (rawLines text) b = .ok interface') :
    interface.span.stop.line ≤ interface'.span.stop.line := by
  obtain ⟨i, next, here, -⟩ := interfaceFor_eq_ok found
  obtain ⟨j, next', here', -⟩ := interfaceFor_eq_ok found'
  obtain ⟨after, -, before⟩ := nextCode?_eq_some_iff.mp next
  obtain ⟨after', ⟨line, atLine, isCode⟩, -⟩ := nextCode?_eq_some_iff.mp next'
  have le : i ≤ j := by
    by_contra gt
    have noneThere := before j line (by omega) (by omega) atLine
    rw [noneThere] at isCode
    cases isCode
  obtain rfl | lt := Nat.eq_or_lt_of_le le
  · rw [here] at here'
    rw [Option.some.inj here']
  · obtain ⟨located, inFile, -, span⟩ :=
      exists_item_of_interface (List.mem_of_find?_eq_some here)
    obtain ⟨located', inFile', -, span'⟩ :=
      exists_item_of_interface (List.mem_of_find?_eq_some here')
    have start : interface.span.start.line = i + 1 := by simpa using List.find?_some here
    have start' : interface'.span.start.line = j + 1 := by simpa using List.find?_some here'
    obtain ⟨_, -, -, within⟩ := exists_line_of_item inFile'
    -- The upper one of the two items is the one that stands first in the file.
    obtain ⟨front, back, whole⟩ := List.append_of_mem inFile
    have ordered := items_pairwise text
    rw [whole, List.pairwise_append, List.pairwise_cons] at ordered
    obtain ⟨-, ⟨below, -⟩, above⟩ := ordered
    rw [whole, List.mem_append, List.mem_cons] at inFile'
    rw [span] at start ⊢
    rw [span'] at start' ⊢
    obtain first | rfl | later := inFile'
    · have order := above located' first located (List.mem_cons_self ..)
      omega
    · omega
    · have order := below located' later
      omega

theorem Copy.insertion_lines (target : Source) (lines : List Text) (copy : Copy) :
    (copy.insertion target lines).lines = copy.lines := by
  unfold Copy.insertion
  split <;> rfl

/-- The regions of a file, each with its place. -/
def insertionsOf (project : Project) (depth : Nat) (text : Text) : List Insertion :=
  (copies project depth text).map (Copy.insertion (Source.ofText text) (rawLines text))

theorem ended_insertionsOf {project : Project} {depth : Nat} {text : Text} :
    ∀ insertion ∈ insertionsOf project depth text, ∀ line ∈ insertion.lines, Ended line := by
  intro insertion member
  obtain ⟨copy, -, rfl⟩ := List.mem_map.mp member
  rw [Copy.insertion_lines]
  exact ended_linesOf _ _

/-- The imports that a file needs for what is copied into it. -/
def importsOf (project : Project) (depth : Nat) (text : Text) : ImportTable :=
  entered (Source.ofText text) ((copies project depth text).flatMap Copy.needs)

section

variable {project : Project} {depth : Nat} {text : Text} (answered : Answered text)
include answered

/-- **Regions stand in order.** -/
theorem insertionsOf_pairwise :
    (insertionsOf project depth text).Pairwise fun a b => a.after ≤ b.after := by
  have inOrder := (requests_pairwise (rawLines text)).sublist (copiesFrom_requests project depth
    ((Source.ofText text).declarations.flatMap (·.keys)) (requests (rawLines text)))
  rw [List.pairwise_map] at inOrder
  rw [insertionsOf, List.pairwise_map]
  refine inOrder.imp_of_mem fun {a b} inA inB lt => ?_
  obtain ⟨interface, found⟩ := answered a.request (request_of_mem_copies inA)
  obtain ⟨interface', found'⟩ := answered b.request (request_of_mem_copies inB)
  rw [insertion_of_ok found, insertion_of_ok found']
  exact Nat.sub_le_sub_right (stop_le_of_request_lt lt found found') 1

/-! ### A line feed at the end of a file -/

omit answered

theorem exists_last_line (someText : text ≠ []) :
    ∃ front last, rawLines text = front ++ [last] ∧
      rawLines (terminated text) = front ++ [terminated last] := by
  have someLine : rawLines text ≠ [] := by
    intro empty
    have whole := rawLines_flatten text
    rw [empty] at whole
    exact someText whole.symm
  obtain ⟨front, last, lines⟩ := (List.eq_nil_or_concat' (rawLines text)).resolve_left someLine
  have lined := lined_rawLines text
  rw [lines] at lined
  have ended := lined.ended_take (by simp : front.length < (front ++ [last]).length)
  rw [List.take_left] at ended
  have whole : front.flatten ++ last = text := by
    have flat := rawLines_flatten text
    rw [lines] at flat
    simpa using flat
  have terminates : terminated text = (front ++ [terminated last]).flatten := by
    unfold terminated
    rw [← whole, List.getLast?_append_of_ne_nil _ lined.of_append.ne_nil]
    split <;> simp
  refine ⟨front, last, lines, ?_⟩
  rw [terminates]
  exact rawLines_of_lined (Lined.append ended (.inl (ended_terminated lined.of_append)))

theorem classify?_terminated (line : Text) :
    Marker.classify? (terminated line) = Marker.classify? line := by
  unfold terminated
  split
  · rfl
  · rw [Marker.classify?, trimEnd_append_blank blank_feed, Marker.classify?]

theorem nextCode?_terminated (someText : text ≠ []) (i : Nat) :
    nextCode? (rawLines (terminated text)) i = nextCode? (rawLines text) i := by
  obtain ⟨front, last, lines, lines'⟩ := exists_last_line someText
  have code : (rawLines (terminated text)).map isCode = (rawLines text).map isCode := by
    rw [lines, lines', List.map_append, List.map_append, List.map_singleton, List.map_singleton,
      isCode, trim_terminated]
    rfl
  have found (lines : List Text) : nextCode? lines i =
      (((lines.map isCode).drop (i + 1)).findIdx? id).map (i + 1 + ·) := by
    rw [← List.map_drop, List.findIdx?_map]
    rfl
  rw [found, found, code]

include answered

/-- A marker that is answered does not stand on the last line. -/
theorem requests_terminated (someText : text ≠ []) :
    requests (rawLines (terminated text)) = requests (rawLines text) := by
  obtain ⟨front, last, lines, lines'⟩ := exists_last_line someText
  have noneLast : requests [last] = [] := by
    apply List.eq_nil_iff_forall_not_mem.mpr
    intro r member
    obtain ⟨interface, found⟩ := answered (r.at (front.length + r.index)) (by
      rw [lines, requests_append]
      exact List.mem_append_right _ (List.mem_map_of_mem member))
    obtain ⟨j, next, -⟩ := interfaceFor_eq_ok found
    obtain ⟨below, ⟨_, here, -⟩, -⟩ := nextCode?_eq_some_iff.mp next
    have inside := (List.getElem?_eq_some_iff.mp here).1
    rw [lines, List.length_append, List.length_singleton] at inside
    have below : front.length + r.index < j := below
    omega
  have noneTerminated : requests [terminated last] = [] := by
    cases marked : Marker.classify? last with
    | none => simp [requests, classify?_terminated, marked]
    | some marker =>
      cases marker with
      | placeholder => simp [requests, classify?_terminated, marked]
      | injection method => simp [requests, marked] at noneLast
  rw [lines, lines', requests_append, requests_append, noneLast, noneTerminated]

section

variable (someText : text ≠ [])
  (same : (Source.ofText (terminated text)).outline = (Source.ofText text).outline)
include someText same

omit answered in
theorem interfaceFor_terminated (request : Request) :
    interfaceFor (Source.ofText (terminated text)) (rawLines (terminated text)) request =
      interfaceFor (Source.ofText text) (rawLines text) request := by
  have interfaces : (Source.ofText (terminated text)).interfaces = (Source.ofText text).interfaces :=
    congrArg (·.2.1) same
  simp only [interfaceFor, nextCode?_terminated someText, Source.interfaceAt?, interfaces]

theorem answered_terminated : Answered (terminated text) := by
  intro request member
  rw [requests_terminated answered someText] at member
  rw [interfaceFor_terminated someText same]
  exact answered request member

theorem copies_terminated : copies project depth (terminated text) = copies project depth text := by
  have keys : (Source.ofText (terminated text)).declarations.flatMap (·.keys) =
      (Source.ofText text).declarations.flatMap (·.keys) := congrArg (·.1) same
  rw [copies, copies, keys, requests_terminated answered someText]

theorem insertionsOf_terminated :
    insertionsOf project depth (terminated text) = insertionsOf project depth text := by
  rw [insertionsOf, insertionsOf, copies_terminated answered someText same]
  refine List.map_congr_left fun copy _ => ?_
  rw [Copy.insertion, Copy.insertion, interfaceFor_terminated someText same]

end

omit answered

/-- A region behind the last line gives that line a line feed. -/
theorem splice_terminated (front : List Text) (last : Text) {insertion : Insertion}
    (behind : front.length ≤ insertion.after) :
    splice (front ++ [terminated last]) insertion = splice (front ++ [last]) insertion := by
  have count (line : Text) : min insertion.after ((front ++ [line]).length - 1) + 1 =
      (front ++ [line]).length := by
    simp only [List.length_append, List.length_singleton]
    omega
  have ended (line : Text) : terminateLast (front ++ [line]) = front ++ [terminated line] :=
    terminateLast_append_of_ne_nil front (List.cons_ne_nil line [])
  simp only [splice, count, List.take_length, List.drop_length, ended, terminated_terminated]

theorem spliceAll_terminated {front : List Text} {last : Text} {insertions : List Insertion}
    (ordered : insertions.Pairwise fun a b => a.after ≤ b.after)
    (behind : ∃ insertion ∈ insertions, front.length ≤ insertion.after) :
    spliceAll (front ++ [terminated last]) insertions = spliceAll (front ++ [last]) insertions := by
  obtain ⟨insertion, member, behind⟩ := behind
  obtain ⟨others, final, rfl⟩ := (List.eq_nil_or_concat' insertions).resolve_left
    (List.ne_nil_of_mem member)
  have finalBehind : front.length ≤ final.after := by
    obtain first | isFinal := List.mem_append.mp member
    · have order := (List.pairwise_append.mp ordered).2.2 insertion first final
        (List.mem_singleton_self _)
      omega
    · rwa [← List.mem_singleton.mp isFinal]
  simp only [spliceAll, List.foldr_append, List.foldr_cons, List.foldr_nil,
    splice_terminated front last finalBehind]

include answered

omit answered in
theorem ne_nil_of_behind (behind : ∃ insertion ∈ insertionsOf project depth text,
    insertion.after + 1 = (rawLines text).length) : text ≠ [] := by
  rintro rfl
  obtain ⟨_, -, size⟩ := behind
  exact absurd size (Nat.succ_ne_zero _)

/-- **The same file is written** with a line feed at the end of the text or without, if a region goes
there. -/
theorem written_terminated
    (behind : ∃ insertion ∈ insertionsOf project depth text,
      insertion.after + 1 = (rawLines text).length)
    (same : (Source.ofText (terminated text)).outline = (Source.ofText text).outline) :
    written (Source.ofText (terminated text)) (rawLines (terminated text))
        (copies project depth (terminated text)) =
      written (Source.ofText text) (rawLines text) (copies project depth text) := by
  have someText := ne_nil_of_behind behind
  have places : insertionsOf project depth (terminated text) = insertionsOf project depth text :=
    insertionsOf_terminated answered someText same
  have copied : copies project depth (terminated text) = copies project depth text :=
    copies_terminated answered someText same
  have imports : (Source.ofText (terminated text)).imports = (Source.ofText text).imports :=
    congrArg (·.2.2.1) same
  have head : (Source.ofText (terminated text)).preambleEnd = (Source.ofText text).preambleEnd :=
    congrArg (·.2.2.2) same
  obtain ⟨front, last, lines, lines'⟩ := exists_last_line someText
  have spliced :
      spliceAll (rawLines (terminated text)) (insertionsOf project depth (terminated text)) =
      spliceAll (rawLines text) (insertionsOf project depth text) := by
    rw [places, lines, lines']
    apply spliceAll_terminated (insertionsOf_pairwise answered)
    obtain ⟨insertion, member, size⟩ := behind
    refine ⟨insertion, member, ?_⟩
    rw [lines, List.length_append, List.length_singleton] at size
    omega
  rw [insertionsOf, insertionsOf, copied] at spliced
  have enters : enter (Source.ofText (terminated text)) = enter (Source.ofText text) := by
    funext table need
    simp only [enter, Source.import?, imports]
  have adds : addImports (Source.ofText (terminated text)) = addImports (Source.ofText text) := by
    funext table lines
    rw [addImports, addImports, imports, head]
  rw [written, written, copied, spliced, entered, entered, enters, adds]

end

end Injection

end Prefill
