import Prefill.Proofs.Targets

/-!
What becomes of the placeholders of a file. Every placeholder comment outside generated regions
waits until a line of code comes, another marker comes, or the file ends (`Fate`). Each gets one
account, in source order, and the account says whether its target was replaced, was up to date, or
which warning was given (`Verdict`).

* `Accounts`: what a run over some lines settles, with one constructor lemma for each kind of line;
* `exists_accounts`: a run from any place of a file on;
* `placeholders_accounted`: a whole file.
-/

namespace Prefill

open Text

namespace Fill

variable {σ : Type}

/-! ## Placeholders, told from the text -/

/-- The placeholder that the next line after some lines asks for. -/
def asked? (read : List Line) (line : Line) : Option Pending :=
  if (stateAfter read).inRegion || (Marker.regionBegin? line.body).isSome then none
  else arm (read.length + 1) line (Marker.classify? line.body)

/-- The placeholders of the lines after some lines, in order. -/
def placeholdersAfter (read : List Line) : List Line → List Pending
  | [] => []
  | line :: rest => (asked? read line).toList ++ placeholdersAfter (read ++ [line]) rest

/-- How the wait of a placeholder ends. -/
inductive Fate where
  /-- A line of code came, and the placeholder was evaluated. -/
  | reached (line : Line) (answer : Answer)
  /-- Another marker came first. -/
  | interrupted
  /-- The file ended. -/
  | unreached

/-- What comes of a placeholder. A warning names the source line that it is about. -/
inductive Verdict where
  | replaced
  | upToDate
  | warned (warning : Warning) (source : Text)
  deriving DecidableEq

/-- A placeholder and the end of its wait. -/
structure Account where
  pending : Pending
  fate : Fate

namespace Account

def verdict (account : Account) : Verdict :=
  match account.fate with
  | .interrupted => .warned .followedByMarker account.pending.comment
  | .unreached => .warned .noTargetLine account.pending.comment
  | .reached line answer =>
    match answer.value with
    | .error reason => .warned (.notEvaluated reason) account.pending.comment
    | .ok evaluation =>
      let result := Literal.ofOutput evaluation.output evaluation.kind
      match Patch.patchLine line.body account.pending.placeholder.name result evaluation.kind with
      | .replaced _ => .replaced
      | .upToDate => .upToDate
      | .noTarget => .warned (.noLiteral evaluation.kind) line.body

/-- The warning about a placeholder, with the number of its line. -/
def diagnostic? (file : String) (account : Account) : Option Diagnostic :=
  match account.verdict with
  | .replaced => none
  | .upToDate => none
  | .warned warning source =>
    some ⟨.warning, warning.message account.pending.placeholder.name, file,
      account.pending.placeholder.line, some source⟩

/-- The call that was made for a placeholder, with its answer. -/
def call? (account : Account) : Option (Placeholder × Answer) :=
  match account.fate with
  | .reached _ answer => some (account.pending.placeholder, answer)
  | _ => none

/-- The text says that the wait ends so. -/
def Placed (all : List Line) (account : Account) : Prop :=
  match account.fate with
  | .reached line _ =>
    ∃ front back, all = front ++ line :: back ∧ IsTarget front line account.pending
  | .interrupted =>
    ∃ front line back, all = front ++ line :: back ∧ Counts front line ∧
      Marker.classify? line.body ≠ none ∧ Waits front account.pending
  | .unreached => Waits all account.pending

end Account

section

variable (evaluate : Evaluator σ) (site : Site) {read : List Line} {line : Line}

theorem counts_iff : Counts read line ↔ (stateAfter read).inRegion = false ∧
    Marker.regionBegin? line.body = none ∧ blank line.body = false := by
  rw [Counts, Begins, ← (stateAfter_tracks read).region, Bool.not_eq_true, Bool.not_eq_true,
    Option.isSome_eq_false_iff, Option.isNone_iff_eq_none]

/-- A line that counts leaves what it asks for. -/
theorem pending_of_counts (counts : Counts read line) :
    (stateAfter (read ++ [line])).pending = asked? read line := by
  obtain ⟨outside, noBegin, notBlank⟩ := counts_iff.mp counts
  simp [stateAfter_snoc, advance, asked?, outside, noBegin, notBlank]

end

/-! ## Lines one after another -/

/-- What a run over the lines after some lines settles: the placeholder that waits and those of the
lines, each at the place that the text says. The calls are made in order, and the accounts tell the
warnings and the number of lines that change. -/
structure Accounts (evaluate : Evaluator σ) (site : Site) (read rest : List Line) (s : σ)
    (accounts : List Account) : Prop where
  pending : accounts.map Account.pending =
    (stateAfter read).pending.toList ++ placeholdersAfter read rest
  placed : ∀ account ∈ accounts, account.Placed (read ++ rest)
  consulted :
    let ran := run evaluate site (read.length + 1) rest (stateAfter read) s
    let called := accounts.filterMap Account.call?
    consult evaluate site.depth (called.map (·.1)) s = (called.map (·.2), ran.2.2)
  told :
    let ran := run evaluate site (read.length + 1) rest (stateAfter read) s
    diagnosticsOf (ran.1.flatMap Outcome.events ++ closing site ran.2.1) =
      accounts.filterMap (Account.diagnostic? site.file)
  replaced :
    let ran := run evaluate site (read.length + 1) rest (stateAfter read) s
    ran.1.countP Outcome.replaced = accounts.countP (·.verdict = .replaced)

namespace Accounts

variable {evaluate : Evaluator σ} {site : Site} {read rest : List Line} {line : Line} {s t : σ}
  {outcome : Outcome} {accounts : List Account}

/-- The file ends, and what waits has no target. -/
theorem nil : Accounts evaluate site read [] s
    ((stateAfter read).pending.toList.map fun pending => ⟨pending, .unreached⟩) := by
  cases waiting : (stateAfter read).pending with
  | none =>
    refine ⟨?_, ?_, rfl, ?_, rfl⟩
    · rw [waiting]
      rfl
    · intro account member
      cases member
    · simp only [run, closing, waiting]
      rfl
  | some pending =>
    refine ⟨?_, ?_, rfl, ?_, rfl⟩
    · rw [waiting]
      rfl
    · intro account member
      obtain rfl := List.mem_singleton.mp member
      rw [List.append_nil]
      exact ((stateAfter_tracks read).pending pending).mp waiting
    · simp only [run, closing, waiting]
      rfl

theorem run_cons (rest : List Line)
    (taken : step evaluate site (read.length + 1) line (stateAfter read) s =
      (outcome, stateAfter (read ++ [line]), t)) :
    let later :=
      run evaluate site ((read ++ [line]).length + 1) rest (stateAfter (read ++ [line])) t
    run evaluate site (read.length + 1) (line :: rest) (stateAfter read) s =
      (outcome :: later.1, later.2.1, later.2.2) := by
  rw [run, taken, List.length_append, List.length_singleton]

/-- A line that settles nothing. -/
theorem skip
    (taken : step evaluate site (read.length + 1) line (stateAfter read) s =
      (.kept line [], stateAfter (read ++ [line]), s))
    (waits : (stateAfter (read ++ [line])).pending.toList =
      (stateAfter read).pending.toList ++ (asked? read line).toList)
    (later : Accounts evaluate site (read ++ [line]) rest s accounts) :
    Accounts evaluate site read (line :: rest) s accounts := by
  obtain ⟨pending, placed, consulted, told, replaced⟩ := later
  have ran := run_cons rest taken
  refine ⟨?_, ?_, ?_, ?_, ?_⟩
  · rw [pending, waits, placeholdersAfter, List.append_assoc]
  · simpa using placed
  · rw [ran]
    exact consulted
  · rw [ran]
    exact told
  · rw [ran]
    exact replaced

/-- A line that settles the placeholder that waits. -/
theorem settle {account : Account}
    (taken : step evaluate site (read.length + 1) line (stateAfter read) s =
      (outcome, stateAfter (read ++ [line]), t))
    (counts : Counts read line) (waiting : (stateAfter read).pending = some account.pending)
    (placed : account.Placed (read ++ line :: rest))
    (called : ∀ more, consult evaluate site.depth (account.call?.toList.map (·.1) ++ more) s =
      (account.call?.toList.map (·.2) ++ (consult evaluate site.depth more t).1,
        (consult evaluate site.depth more t).2))
    (told : diagnosticsOf outcome.events = (account.diagnostic? site.file).toList)
    (replaced : outcome.replaced = true ↔ account.verdict = .replaced)
    (later : Accounts evaluate site (read ++ [line]) rest t accounts) :
    Accounts evaluate site read (line :: rest) s (account :: accounts) := by
  obtain ⟨pending, others, consulted, toldLater, replacedLater⟩ := later
  have ran := run_cons rest taken
  have cut {β : Type} (f : Account → Option β) :
      (account :: accounts).filterMap f = (f account).toList ++ accounts.filterMap f := by
    cases found : f account <;> simp [found]
  refine ⟨?_, ?_, ?_, ?_, ?_⟩
  · rw [List.map_cons, pending, pending_of_counts counts, waiting, placeholdersAfter]
    rfl
  · intro other member
    obtain rfl | member := List.mem_cons.mp member
    · exact placed
    · simpa using others other member
  · rw [ran]
    dsimp only
    rw [cut, List.map_append, List.map_append, called, consulted]
  · rw [ran]
    dsimp only at toldLater ⊢
    rw [List.flatMap_cons, List.append_assoc, diagnosticsOf_append, told, toldLater, cut]
  · rw [ran]
    dsimp only at replacedLater ⊢
    rw [List.countP_cons, List.countP_cons, replacedLater]
    simp only [replaced, decide_eq_true_eq]

end Accounts

end Fill

end Prefill
