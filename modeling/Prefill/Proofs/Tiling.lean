import Prefill.Proofs.Boundaries

/-!
How tokens lie in a text. They stand in order at ranges of bytes that start and end between
characters; what is left between them is blank or a closed comment, and what is left behind them may
also end in a comment that runs to the end of the text.

* `gap_of_cut?`, `ending_of_cut?`: a piece that is no token, and the place where a scan ends;
* `Tiled`, `tiled_tokensFrom`: the tokens and the gaps make up the text;
* `tokens_tile`: the same said of byte ranges.
-/

namespace Prefill

open Text

namespace Text

theorem byteLength_pos {text : Text} (h : text ≠ []) : 0 < byteLength text := by
  obtain ⟨c, rest, rfl⟩ := List.exists_cons_of_ne_nil h
  exact Nat.add_pos_left c.utf8Size_pos _

/-- A text that is not cut holds no mark. -/
theorem not_infix_of_cutAt?_none {needle text : Text} (h : cutAt? needle text = none) :
    ¬ needle <:+: text := by
  induction text with
  | nil =>
    intro inside
    simp [cutAt?, List.infix_nil.mp inside] at h
  | cons c rest ih =>
    rw [cutAt?] at h
    split at h
    · cases h
    · rename_i missed
      rw [List.infix_cons_iff, not_or]
      refine ⟨?_, ih (Option.map_eq_none_iff.mp h)⟩
      rintro ⟨tail, shown⟩
      rw [strip?_eq_some_iff.mpr shown.symm] at missed
      cases missed

/-- A text is cut at the first place of a mark. -/
theorem not_infix_of_cutAt? {needle text front tail : Text} (notEmpty : needle ≠ [])
    (h : cutAt? needle text = some (front, tail)) : ¬ needle <:+: front := by
  induction text generalizing front with
  | nil => simp [cutAt?, notEmpty] at h
  | cons c rest ih =>
    rw [cutAt?] at h
    split at h
    · obtain ⟨rfl, -⟩ := by simpa using h
      simpa using notEmpty
    · rename_i missed
      obtain ⟨⟨inner, back⟩, cut, shown⟩ := Option.map_eq_some_iff.mp h
      obtain ⟨rfl, rfl⟩ := by simpa using shown
      rw [List.infix_cons_iff, not_or]
      refine ⟨?_, ih cut⟩
      rintro ⟨more, lead⟩
      have here : c :: rest = needle ++ (more ++ (needle ++ back)) := by
        rw [cutAt?_append cut, ← List.append_assoc, lead]
        simp
      rw [strip?_eq_some_iff.mpr here] at missed
      cases missed

end Text

namespace Token

/-! ## Gaps -/

/-- What may stand between tokens: blanks and closed comments. -/
inductive Gap : Text → Prop
  | nil : Gap []
  | blank {c : Char} {rest : Text} : isGap c = true → Gap rest → Gap (c :: rest)
  | comment {inner rest : Text} :
      ¬ "*/".toList <:+: inner → Gap rest →
      Gap ('/' :: '*' :: inner ++ "*/".toList ++ rest)

/-- Where a scan ends: at the end of the text, at a line comment, or at a comment that is not
closed. -/
inductive Ending : Text → Prop
  | nothing : Ending []
  | line (comment : Text) : Ending ('/' :: '/' :: comment)
  | block {comment : Text} : ¬ "*/".toList <:+: comment → Ending ('/' :: '*' :: comment)

theorem ending_of_cut? {text : Text} (h : cut? text = none) : Ending text := by
  unfold cut? at h
  split at h
  · exact .nothing
  · exact .line _
  · exact .block (not_infix_of_cutAt?_none (Option.map_eq_none_iff.mp h))
  · cases h

/-- A piece that is no token belongs to the gap it opens. -/
theorem gap_of_cut? {text : Text} {piece : Piece} (h : cut? text = some piece)
    (noToken : piece.kind = none) {gap : Text} (rest : Gap gap) : Gap (piece.text ++ gap) := by
  unfold cut? at h
  split at h
  · cases h
  · cases h
  · obtain ⟨⟨inner, tail⟩, cut, rfl⟩ := Option.map_eq_some_iff.mp h
    exact .comment (not_infix_of_cutAt? (by decide) cut) rest
  · obtain rfl := Option.some.inj h
    unfold Piece.first at noToken ⊢
    split
    · exact .blank ‹_› rest
    · rename_i notGap
      rw [if_neg notGap] at noToken
      repeat' split at noToken
      all_goals cases noToken

/-! ## Tokens and gaps -/

/-- Tokens that make up a text from an offset on, with a gap before each of them and behind the
last. -/
inductive Tiled : Nat → Text → List Token → Prop
  | done {offset : Nat} {gap ending : Text} :
      Gap gap → Ending ending → Tiled offset (gap ++ ending) []
  | token {offset : Nat} {gap rest : Text} {token : Token} {more : List Token} :
      Gap gap → token.text ≠ [] → token.start = offset + byteLength gap →
      token.stop = token.start + byteLength token.text → Tiled token.stop rest more →
      Tiled offset (gap ++ (token.text ++ rest)) (token :: more)

theorem Tiled.behind {offset : Nat} {front rest : Text} {tokens : List Token}
    (isGap : ∀ gap, Gap gap → Gap (front ++ gap))
    (h : Tiled (offset + byteLength front) rest tokens) : Tiled offset (front ++ rest) tokens := by
  cases h with
  | done gap ending =>
    rw [← List.append_assoc]
    exact .done (isGap _ gap) ending
  | token gap someText start stop more =>
    rw [← List.append_assoc]
    refine .token (isGap _ gap) someText ?_ stop more
    rw [start, byteLength_append, Nat.add_assoc]

/-- **The tokens and the gaps between them make up the text.** -/
theorem tiled_tokensFrom (offset : Nat) (text : Text) :
    Tiled offset text (tokensFrom offset text) := by
  induction text using piece_induction generalizing offset with
  | done text cut =>
    rw [tokensFrom_of_none cut]
    exact .done .nil (ending_of_cut? cut)
  | step text piece cut ih =>
    rw [tokensFrom_of_cut? cut, Piece.token?]
    have rest := ih (offset + byteLength piece.text)
    rw [← cut?_append cut]
    cases isToken : piece.kind with
    | none => exact .behind (fun _ gap => gap_of_cut? cut isToken gap) rest
    | some kind =>
      let token : Token := ⟨kind, piece.text, offset, offset + byteLength piece.text⟩
      show Tiled offset ([] ++ (token.text ++ piece.rest)) (token :: _)
      exact .token .nil (cut?_ne_nil cut) rfl rfl rest

/-- Where the last of some tokens ends. -/
def stopAfter (offset : Nat) (tokens : List Token) : Nat :=
  (tokens.getLast?.map Token.stop).getD offset

theorem stopAfter_cons (offset : Nat) (token : Token) (rest : List Token) :
    stopAfter offset (token :: rest) = stopAfter token.stop rest := by
  cases rest with
  | nil => rfl
  | cons next rest => simp [stopAfter, List.getLast?_cons]

/-- Behind the first of some tokens the others make up the rest of the text. -/
theorem Tiled.after {offset : Nat} {text : Text} {tokens front more : List Token}
    (h : Tiled offset text tokens) (split : tokens = front ++ more) :
    ∃ passed rest, text = passed ++ rest ∧ stopAfter offset front = offset + byteLength passed ∧
      Tiled (stopAfter offset front) rest more := by
  induction h generalizing front with
  | @done offset gap ending isGap isEnding =>
    obtain ⟨rfl, rfl⟩ := List.append_eq_nil_iff.mp split.symm
    exact ⟨[], _, rfl, rfl, .done isGap isEnding⟩
  | @token offset gap rest token tail isGap someText start stop tiled ih =>
    cases front with
    | nil =>
      obtain rfl : token :: tail = more := split
      exact ⟨[], _, rfl, rfl, .token isGap someText start stop tiled⟩
    | cons first front =>
      obtain ⟨rfl, others⟩ := List.cons.inj split
      obtain ⟨passed, left, rfl, reached, tiled⟩ := ih others
      rw [stopAfter_cons]
      refine ⟨gap ++ (token.text ++ passed), left, by simp, ?_, tiled⟩
      rw [reached, stop, start, byteLength_append, byteLength_append]
      omega

theorem Tiled.offset_le {offset : Nat} {text : Text} {tokens : List Token}
    (h : Tiled offset text tokens) : ∀ token ∈ tokens, offset ≤ token.start := by
  induction h with
  | done => simp
  | token _ _ start stop _ ih =>
    rw [List.forall_mem_cons]
    refine ⟨by omega, fun other member => ?_⟩
    have behind := ih other member
    omega

theorem Tiled.pairwise {offset : Nat} {text : Text} {tokens : List Token}
    (h : Tiled offset text tokens) : tokens.Pairwise fun a b => a.stop ≤ b.start := by
  induction h with
  | done => exact .nil
  | token _ _ _ _ tiled ih => exact .cons tiled.offset_le ih

/-! ## Byte ranges -/

/-- A part of a text stands at a range of bytes of the UTF-8 form of the text. The range starts and
ends between two characters. -/
def Occupies (text : Text) (start stop : Nat) (part : Text) : Prop :=
  ∃ front back, text = front ++ part ++ back ∧ (Utf8.encode front).length = start ∧
    (Utf8.encode (front ++ part)).length = stop

/-- What stands behind a text is found where the text ends. -/
theorem occupies_append {before part rest : Text} {start stop : Nat}
    (starts : start = byteLength before) (ends : stop = start + byteLength part) :
    Occupies (before ++ (part ++ rest)) start stop part := by
  refine ⟨before, rest, (List.append_assoc ..).symm, ?_, ?_⟩
  · rw [length_encode, starts]
  · rw [length_encode, byteLength_append, ends, starts]

/-- **Tokens tile the text.** The scan by bytes has a result, so it never reads a part of the text
that starts or ends inside a character. No token is empty, each is what stands at its byte range,
and they stand one behind the other. Before each of them, from the end of the one before it, there
is a gap; behind the last one there is a gap and the ending of the scan. -/
theorem tokens_tile (text : Text) :
    scan? text = some (tokenize text) ∧
    (∀ token ∈ tokenize text, token.text ≠ [] ∧ token.start < token.stop ∧
      Occupies text token.start token.stop token.text) ∧
    (tokenize text).Pairwise (fun a b => a.stop ≤ b.start) ∧
    (∀ before token after, tokenize text = before ++ token :: after →
      ∃ gap, Gap gap ∧ Occupies text (stopAfter 0 before) token.start gap) ∧
    ∃ gap ending, Gap gap ∧ Ending ending ∧
      Occupies text (stopAfter 0 (tokenize text)) (Utf8.encode text).length (gap ++ ending) := by
  have tiled : Tiled 0 text (tokenize text) := tokenize_eq text ▸ tiled_tokensFrom 0 text
  refine ⟨?_, ?_, tiled.pairwise, ?_, ?_⟩
  · rw [scan?_eq_some, tokenize_eq]
  · intro token member
    obtain ⟨before, after, split⟩ := List.append_of_mem member
    obtain ⟨passed, rest, shown, reached, tiled⟩ := tiled.after split
    cases tiled with
    | @token _ gap rest _ _ _ someText start stop _ =>
      have positive := byteLength_pos someText
      refine ⟨someText, by omega, ?_⟩
      rw [shown, ← List.append_assoc passed]
      refine occupies_append ?_ stop
      rw [byteLength_append, start, reached, Nat.zero_add]
  · intro before token after split
    obtain ⟨passed, rest, shown, reached, tiled⟩ := tiled.after split
    cases tiled with
    | @token _ gap rest _ _ isGap _ start _ _ =>
      rw [shown]
      exact ⟨gap, isGap, occupies_append (by rw [reached, Nat.zero_add]) start⟩
  · obtain ⟨passed, rest, shown, reached, tiled⟩ := tiled.after (List.append_nil _).symm
    cases tiled with
    | @done _ gap ending isGap isEnding =>
      refine ⟨gap, ending, isGap, isEnding, passed, [], by simp [shown], ?_, ?_⟩
      · rw [length_encode, reached, Nat.zero_add]
      · rw [shown]

end Token

end Prefill
