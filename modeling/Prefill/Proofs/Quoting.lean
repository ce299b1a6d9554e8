import Prefill.Proofs.Colons
import Prefill.Proofs.Results
import Prefill.Proofs.StringValue

/-!
Quoted text. A string that is written as a literal is read back as that string
(`written_read_back`), and every scanner takes the literal as one thing: it is one token, and
between colons it is one argument, whatever characters the string has (`literal_kept_whole`).

The two scans agree on every literal that closes itself (`Token.Whole`): a text that the scan for
tokens takes in one piece leaves the scan for colons where it was (`balanced_of_whole`).
-/

namespace Prefill

open Text

namespace Literal

/-! ### Reading back -/

/-- Reading a literal gives the text of the bytes that it denotes. -/
theorem unquote?_of_denotes {literal : Text} {bytes : Utf8.Bytes} (h : Denotes literal bytes) :
    unquote? literal = some (Utf8.decodeLossy bytes) := by
  cases h with
  | interpreted h => exact unquote?_of_interprets h
  | @raw inner closed =>
    have kept : inner.filter (· != '\r') = inner.filter (· ≠ '\r') :=
      List.filter_congr fun c _ => by by_cases same : c = '\r' <;> simp [same]
    simp only [unquote?, between?_quotes, kept, Utf8.decodeLossy_encode]

theorem unquote?_quote (value : Text) : unquote? (quote value) = some value := by
  have denoted : Denotes (quote value) (Utf8.encode value) :=
    .interpreted ⟨_, rfl, inner_escape value⟩
  rw [unquote?_of_denotes denoted, Utf8.decodeLossy_encode]

theorem unquote?_ofString (value : Text) : unquote? (ofString value) = some value := by
  rw [unquote?_of_denotes (denotes_ofString value), Utf8.decodeLossy_encode]

/-- **Strings are read back.** Quoting a text and reading the literal gives the text. A printed
string is written as a literal of the text that it was read as, or of itself if it is no literal. -/
theorem written_read_back :
    (∀ value, unquote? (quote value) = some value) ∧
      ∀ output, unquote? (ofOutput output .string) =
        some ((unquote? (trim output)).getD (trim output)) :=
  ⟨unquote?_quote, fun _ => unquote?_ofString _⟩

end Literal

/-! ### One token -/

namespace Token

theorem tokenize_of_whole {kind : Kind} {text : Text} (whole : Whole (some kind) text) :
    tokenize text = [⟨kind, text, 0, byteLength text⟩] := by
  have ends : ∀ c ∈ ([] : Text).head?, goesOn (some kind) text c = false := by simp
  have cut : cut? text = some ⟨some kind, text, []⟩ := by
    simpa using cut?_of_whole whole ends
  rw [tokenize_eq, tokensFrom_of_cut? cut, tokensFrom_of_none rfl]
  simp [Piece.token?]

theorem Whole.trimmed {text : Text} (whole : Whole (some .string) text) : Trimmed text := by
  obtain ⟨quote, inner, rfl, isQuote⟩ := whole.exists_quoted
  have solid : isBlank quote = false := by
    obtain rfl | rfl := isQuote <;> decide
  exact ⟨by simpa using solid, by simpa [List.getLast?_cons] using solid⟩

end Token

/-! ### One argument -/

namespace Argument

open Token

theorem Scan.through?_closed {body : Text} (h : Closed '"' body) :
    (⟨some '"', false, 0⟩ : Scan).through? body = some fresh := by
  induction h with
  | close => rfl
  | escape _ ih => simpa [through?, separates, step] using ih
  | char notSlash inside _ ih => simpa [through?, separates, step, notSlash, inside] using ih

theorem Scan.through?_raw {inner : Text} (inside : '`' ∉ inner) :
    (⟨some '`', false, 0⟩ : Scan).through? (inner ++ ['`']) = some fresh := by
  induction inner with
  | nil => rfl
  | cons c inner ih =>
    rw [List.mem_cons, not_or] at inside
    simpa [through?, separates, step, Ne.symm inside.1] using ih inside.2

/-- **The scans agree.** What is one string token has no colon that separates arguments, and it ends
where it began: outside quotes and brackets. -/
theorem balanced_of_whole {text : Text} (whole : Whole (some .string) text) : Balanced text := by
  cases whole with
  | string closed => exact Scan.through?_closed closed
  | raw inside => exact Scan.through?_raw inside

theorem ofText_of_whole {text : Text} (whole : Whole (some .string) text) :
    ofText text = .quoted text := by
  have same := whole.trimmed.trim_eq
  obtain ⟨quote, inner, rfl, isQuote⟩ := whole.exists_quoted
  unfold ofText
  rw [same]
  obtain rfl | rfl := isQuote <;> rfl

theorem split_of_whole {literals : List Text}
    (whole : ∀ literal ∈ literals, Whole (some .string) literal) :
    split (joinWith ":" literals) = literals := by
  apply split_join (strung_of_balanced fun literal member => balanced_of_whole (whole _ member))
  intro literal member
  obtain ⟨quote, inner, shown, -⟩ := (whole _ member).exists_quoted
  exact ⟨(whole _ member).trimmed, by simp [shown]⟩

end Argument

namespace Literal

open Token Argument

theorem whole_quote (value : Text) : Whole (some .string) (quote value) :=
  .string (closed_quote value)

/-- **A literal stays one thing.** A quoted text and the literal of a printed string are one token
that covers them, and quoted texts with colons between them are split into these texts and read as
quoted arguments. -/
theorem literal_kept_whole :
    (∀ value, tokenize (quote value) = [⟨.string, quote value, 0, byteLength (quote value)⟩]) ∧
      (∀ output, tokenize (ofOutput output .string) =
        [⟨.string, ofOutput output .string, 0, byteLength (ofOutput output .string)⟩]) ∧
      ∀ values : List Text,
        split (joinWith ":" (values.map quote)) = values.map quote ∧
          parse (joinWith ":" (values.map quote)) =
            values.map fun value => .quoted (quote value) := by
  refine ⟨fun value => tokenize_of_whole (whole_quote value),
    fun output => tokenize_of_whole (whole_ofString _), fun values => ?_⟩
  have pieces : split (joinWith ":" (values.map quote)) = values.map quote := by
    apply split_of_whole
    rintro literal member
    obtain ⟨value, -, rfl⟩ := List.mem_map.mp member
    exact whole_quote value
  refine ⟨pieces, ?_⟩
  rw [parse, pieces, List.map_map]
  exact List.map_congr_left fun value _ => ofText_of_whole (whole_quote value)

end Literal

end Prefill
