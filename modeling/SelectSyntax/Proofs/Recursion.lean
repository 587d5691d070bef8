import SelectSyntax.Proofs.Progress

/-!
The recursion of the parsers without a count of steps. The tokens left are always enough of a count, so that
a repetition, a path of names and a row expression are what their rules say, with the same parser again for
what is left.
-/

set_option autoImplicit false
set_option relaxedAutoImplicit false

namespace SelectSyntax.Parse

open Token (Kind)
open SyntaxTree (BinaryOp Expr SetOp Body)

/-- A parser that takes a token where its value says so, and takes none at the end of a text. -/
structure Takes {α : Type} (p : Parser α) (taken : α → Bool) : Prop where
  forward : Forward p
  takes : ∀ s a t, s.Complete → p s = .ok a t → taken a = true → t.remaining < s.remaining
  ends : ∀ s, s.kind.isTerminal = true → ∃ a, p s = .ok a s ∧ taken a = false

section
variable {α β : Type}

theorem Forward.pure (a : α) : Forward (pure a : Parser α) := fun s _ => .refl s

theorem Forward.kind {f : Kind → Parser α} (rest : ∀ k, Forward (f k)) : Forward (Parse.kind >>= f) :=
  fun s complete => rest s.kind s complete

theorem forward_of_alike {taken : Bool} {known : Option Kind} {p : Parser α}
    (h : Alike (fun _ p _ => Forward p) (fun _ p _ => Forward p) taken known p p) : Forward p :=
  h.forward (fun _ _ _ pair => pair) fun _ _ _ pair => pair

theorem eat_takes {k : Kind} (live : k.isTerminal = false) : Takes (eat k) id where
  forward := (eat_step live).forward
  takes s a t complete run taken := by
    have step := (eat_step live).stays s complete
    rw [run] at step
    exact step.2 taken
  ends s terminal := ⟨false, eat_of_ne (by rintro rfl; simp [terminal] at live), rfl⟩

theorem take?_takes {read : Kind → Option α}
    (live : ∀ k a, read k = some a → k.isTerminal = false) : Takes (take? read) Option.isSome where
  forward := (take?_step live).forward
  takes s a t complete run taken := by
    have step := (take?_step live).stays s complete
    rw [run] at step
    exact step.2 taken
  ends s terminal := by
    refine ⟨none, take?_eq_ok.mpr (Or.inr ⟨rfl, ?_, rfl⟩), rfl⟩
    cases found : read s.kind with
    | none => rfl
    | some a => simp [live _ _ found] at terminal

/-- What goes on only after a token has been taken takes one as well. -/
theorem Takes.bind {p : Parser α} {f : α → Parser β} {taken : α → Bool} {taken' : β → Bool}
    (first : Takes p taken) (rest : ∀ a, Forward (f a))
    (nothing : ∀ a, taken a = false → ∃ b, f a = pure b ∧ taken' b = false) :
    Takes (p >>= f) taken' where
  forward := first.forward.bind rest
  takes s b t complete run took := by
    obtain ⟨a, u, run₁, run₂⟩ := bind_eq_ok.mp run
    have within := first.forward.of_ok complete run₁
    have fewer := ((rest a).of_ok (within.complete complete) run₂).remaining_le
    cases found : taken a with
    | true =>
        have less := first.takes s a u complete run₁ found
        omega
    | false =>
        obtain ⟨b', same, no⟩ := nothing a found
        rw [same] at run₂
        cases run₂
        rw [no] at took
        cases took
  ends s terminal := by
    obtain ⟨a, run, no⟩ := first.ends s terminal
    obtain ⟨b, same, no'⟩ := nothing a no
    exact ⟨b, bind_eq_ok.mpr ⟨a, s, run, by rw [same]; rfl⟩, no'⟩

section
variable {item? : Parser (Option α)} (item : Takes item? Option.isSome)
include item

private theorem manyWithin_end (n : Nat) {s : State} (complete : s.Complete)
    (end_ : s.remaining = 0) : manyWithin item? n s = .ok [] s := by
  have terminal : s.kind.isTerminal = true :=
    complete.isTerminal_iff.mpr (List.length_eq_zero_iff.mp end_)
  obtain ⟨o, run, no⟩ := item.ends s terminal
  cases o with
  | some a => cases no
  | none =>
      cases n with
      | zero => rfl
      | succ n => exact bind_of_ok run

/-- With a count of all tokens left, or any greater one, as many items are read. -/
theorem manyWithin_enough (n m : Nat) {s : State} (complete : s.Complete)
    (le : s.remaining ≤ n) (le' : s.remaining ≤ m) :
    manyWithin item? n s = manyWithin item? m s := by
  induction n generalizing m s with
  | zero =>
      rw [manyWithin_end item 0 complete (by omega), manyWithin_end item m complete (by omega)]
  | succ n ih =>
      cases m with
      | zero =>
          rw [manyWithin_end item _ complete (by omega), manyWithin_end item 0 complete (by omega)]
      | succ m =>
          cases run : item? s with
          | error f t => rw [manyWithin, manyWithin, bind_of_error run, bind_of_error run]
          | ok o t =>
              rw [manyWithin, manyWithin, bind_of_ok run, bind_of_ok run]
              cases o with
              | none => rfl
              | some a =>
                  have less := item.takes s _ t complete run rfl
                  have ahead := (item.forward.of_ok complete run).complete complete
                  have same := ih m ahead (by omega) (by omega)
                  simp only [Bind.bind, EStateM.bind, same]

/-- A repetition reads an item, if there is one, and goes on with what is left. -/
theorem many_eq {s : State} (complete : s.Complete) :
    many item? s =
      (do
        match ← item? with
        | none => pure []
        | some a => do
            let rest ← many item?
            pure (a :: rest)) s := by
  have more := manyWithin_enough item s.remaining (s.remaining + 1) complete (by omega) (by omega)
  rw [many, show s.cursor.remaining = s.remaining from rfl, more, manyWithin]
  cases run : item? s with
  | error f t => rw [bind_of_error run, bind_of_error run]
  | ok o t =>
      rw [bind_of_ok run, bind_of_ok run]
      cases o with
      | none => rfl
      | some a =>
          have less := item.takes s _ t complete run rfl
          have ahead := (item.forward.of_ok complete run).complete complete
          have same := manyWithin_enough item s.remaining t.remaining ahead (by omega) (by omega)
          simp only [Bind.bind, EStateM.bind, same]
          rfl

end

theorem after?_takes {p : Parser α} (forward : Forward p) {k : Kind} (live : k.isTerminal = false) :
    Takes (after? k p) Option.isSome := by
  refine (eat_takes live).bind (fun taken => ?_) fun taken no => ?_
  · cases taken with
    | true => exact forward.bind fun _ => .pure _
    | false => exact .pure _
  · cases taken with
    | true => cases no
    | false => exact ⟨none, rfl, rfl⟩

theorem tail?_takes {p : Parser Expr} (forward : Forward p) {operator : Kind → Option BinaryOp}
    (live : ∀ k op, operator k = some op → k.isTerminal = false) :
    Takes (tail? operator p) Option.isSome := by
  refine (take?_takes live).bind (fun op => ?_) fun op no => ?_
  · cases op with
    | some op => exact forward.bind fun _ => .pure _
    | none => exact .pure _
  · cases op with
    | some op => cases no
    | none => exact ⟨none, rfl, rfl⟩

theorem setTail?_takes {p : Parser Body} (forward : Forward p) {operator : Kind → Option SetOp}
    (live : ∀ k op, operator k = some op → k.isTerminal = false) :
    Takes (setTail? operator p) Option.isSome := by
  refine (take?_takes live).bind (fun op => ?_) fun op no => ?_
  · cases op with
    | some op => exact forward_of_alike (.bind .setQuantifier fun _ => .bind (.free forward) fun _ => .pure _)
    | none => exact .pure _
  · cases op with
    | some op => cases no
    | none => exact ⟨none, rfl, rfl⟩

theorem joinKind?_takes : Takes joinKind? Option.isSome where
  forward := forward_of_alike .joinKind?
  takes s o t complete run some_ := by
    obtain ⟨cross, m, taken, next⟩ := bind_eq_ok.mp run
    have ahead := ((eat_takes rfl).forward.of_ok complete taken).complete complete
    have fewer := ((eat_takes rfl).forward.of_ok complete taken).remaining_le
    cases cross with
    | true =>
        obtain ⟨_, u, word, last⟩ := bind_eq_ok.mp next
        obtain ⟨_, rfl⟩ := expect_eq_ok.mp word
        obtain ⟨rfl, rfl⟩ := pure_eq_ok.mp last
        have less := (eat_takes rfl).takes s _ m complete taken rfl
        exact Nat.lt_of_le_of_lt m.advance_within.remaining_le less
    | false =>
        obtain ⟨natural, u, taken', next⟩ := bind_eq_ok.mp next
        obtain ⟨side, v, words, last⟩ := bind_eq_ok.mp next
        have within := (eat_takes rfl).forward.of_ok ahead taken'
        have within' := (forward_of_alike .joinSide?).of_ok (within.complete ahead) words
        have fewer' := (within'.trans within).remaining_le
        cases side with
        | none =>
            cases natural with
            | true => cases last
            | false =>
                obtain ⟨rfl, rfl⟩ := pure_eq_ok.mp last
                cases some_
        | some side =>
            obtain ⟨join, w, taken'', last⟩ := bind_eq_ok.mp last
            cases join with
            | false => cases last
            | true =>
                obtain ⟨rfl, rfl⟩ := pure_eq_ok.mp last
                have less := (eat_takes rfl).takes v _ _
                  (within'.complete (within.complete ahead)) taken'' rfl
                omega
  ends s terminal := by
    refine ⟨none, ?_, rfl⟩
    cases found : s.kind with
    | eof | start | fault f =>
        simp [joinKind?, joinSide?, bind, EStateM.bind, eat, kind, found, pure, EStateM.pure]
    | _ => simp [found, Kind.isTerminal] at terminal

theorem chain_forward {p : Parser Expr} (forward : Forward p) {operator : Kind → Option BinaryOp}
    (live : ∀ k op, operator k = some op → k.isTerminal = false) : Forward (chain operator p) :=
  forward_of_alike (.chain live (.free forward))

theorem setChain_forward {p : Parser Body} (forward : Forward p) {operator : Kind → Option SetOp}
    (live : ∀ k op, operator k = some op → k.isTerminal = false) : Forward (setChain operator p) :=
  forward_of_alike (.setChain live (.free forward))

section
variable {i : Inner} (inside : ∀ e, Forward (i e))
include inside

theorem branch?_takes : Takes (branch? i) Option.isSome := by
  refine (eat_takes rfl).bind (fun taken => ?_) fun taken no => ?_
  · cases taken with
    | true =>
        exact (inside .condition).bind fun _ => (expect_step rfl).forward.bind fun _ =>
          (inside .condition).bind fun _ => .pure _
    | false => exact .pure _
  · cases taken with
    | true => cases no
    | false => exact ⟨none, rfl, rfl⟩

theorem join?_takes : Takes (join? i) Option.isSome := by
  have tables : Forward (parenthesized (i .query) (i .table)) :=
    (inside .query).parenthesized (inside .table)
  refine joinKind?_takes.bind (fun kind => ?_) fun kind no => ?_
  · cases kind with
    | some kind =>
        exact forward_of_alike (.bind (.tablePrimary (.free tables)) fun _ =>
          .bind (.joinCondition inside kind) fun _ => .pure _)
    | none => exact .pure _
  · cases kind with
    | some kind => cases no
    | none => exact ⟨none, rfl, rfl⟩

theorem conditions_forward : Forward (conditions i) :=
  (inside .condition).bind fun _ => forward_of_alike
    (.bind (.many (.after? rfl (.free (inside .condition)))) fun _ => .pure _)

theorem values_forward : Forward (parenthesized (i .query) (conditions i)) :=
  (inside .query).parenthesized (conditions_forward inside)

private theorem sum_congr {r r' : Parser Expr} (forward : Forward r) {s : State}
    (complete : s.Complete)
    (same : ∀ u : State, u.Complete → u.remaining < s.remaining → r u = r' u) :
    sum i r s = sum i r' s := by
  let free : Pairs := fun _ p p' => Forward p ∧ p = p'
  let held : Pairs := fun _ p p' =>
    Forward p ∧ ∀ u : State, u.Complete → u.remaining < s.remaining → p u = p' u
  have entries : ∀ e, held e.Result (i e) (i e) := fun e => ⟨inside e, fun _ _ _ => rfl⟩
  have parens : free _ (parenthesized (i .query) (conditions i))
      (parenthesized (i .query) (conditions i)) :=
    ⟨values_forward inside, rfl⟩
  have alike : Alike free held false none (sum i r) (sum i r') :=
    .sum entries (.free parens) (.held ⟨forward, same⟩)
  exact alike.same s (fun _ _ _ pair => ⟨pair.1, fun u _ _ _ => by rw [pair.2]⟩)
    (fun _ _ _ pair => ⟨pair.1, fun u within less _ => pair.2 u within less⟩) complete

theorem rowWithin_forward (n : Nat) : Forward (rowWithin i n) :=
  forward_of_alike (.rowWithin inside (.free (values_forward inside)) n)

theorem row_forward : Forward (row i) :=
  fun s complete => rowWithin_forward inside (s.cursor.remaining + 1) s complete

/-- With a count of more than the tokens left, as much of a row is read. -/
theorem rowWithin_enough (n m : Nat) {s : State} (complete : s.Complete)
    (less : s.remaining < n) (less' : s.remaining < m) : rowWithin i n s = rowWithin i m s := by
  induction n generalizing m s with
  | zero => omega
  | succ n ih =>
      obtain ⟨m, rfl⟩ : ∃ k, m = k + 1 := ⟨m - 1, by omega⟩
      exact sum_congr inside (rowWithin_forward inside n) complete fun _ within fewer =>
        ih m within (by omega) (by omega)

theorem row_eq {s : State} (complete : s.Complete) : row i s = sum i (row i) s :=
  sum_congr inside (rowWithin_forward inside s.remaining) complete fun _ within fewer =>
    rowWithin_enough inside _ _ within fewer (Nat.lt_succ_self _)

theorem primary_forward {r : Parser Expr} (forward : Forward r) : Forward (primary i r) :=
  forward_of_alike (.primary inside (.free (values_forward inside)) (.free forward))

theorem negation_forward : Forward (negation i) :=
  forward_of_alike (.negation inside (.free (values_forward inside)))

theorem projection_forward : Forward (projection i) :=
  forward_of_alike (.projection inside (.free (values_forward inside)))

theorem orderItem_forward : Forward (orderItem i) :=
  forward_of_alike (.orderItem inside (.free (values_forward inside)))

theorem namedQuery_forward : Forward (namedQuery i) :=
  forward_of_alike (.namedQuery inside)

theorem bodyPrimary_forward : Forward (bodyPrimary i) :=
  forward_of_alike (.bodyPrimary inside (.free (values_forward inside)))

end

end

/-- A path of names, given the parser of the rest of it after a point. -/
def pathThen (rest : Parser (List String × Bool)) : Parser (List String × Bool) := do
  if ← eat .star then pure ([], true)
  else
    match ← identifier? with
    | none => unexpected [.identifier, .star]
    | some name =>
        if ← eat .dot then
          let path ← rest
          pure (name :: path.1, path.2)
        else pure ([name], false)

private theorem pathThen_congr {rest rest' : Parser (List String × Bool)} {s : State}
    (complete : s.Complete)
    (same : ∀ u : State, u.Complete → u.remaining < s.remaining → rest u = rest' u) :
    pathThen rest s = pathThen rest' s := by
  by_cases star : s.kind = .star
  · rw [pathThen, pathThen, bind_of_ok (eat_of_kind star), bind_of_ok (eat_of_kind star)]
    rfl
  · rw [pathThen, pathThen, bind_of_ok (eat_of_ne star), bind_of_ok (eat_of_ne star)]
    by_cases name : s.kind = .identifier
    · have fewer := complete.remaining_advance (by rw [name]; rfl)
      have ahead := s.advance_within.complete complete
      by_cases dot : s.advance.kind = .dot
      · have fewer' := ahead.remaining_advance (by rw [dot]; rfl)
        have later := same _ (s.advance.advance_within.complete ahead) (by omega)
        simp [Bind.bind, EStateM.bind, identifier?, name, eat, dot, later]
      · simp [Bind.bind, EStateM.bind, identifier?, name, eat, dot]
    · simp [Bind.bind, EStateM.bind, identifier?, name]

/-- With a count of more than the tokens left, as much of a path is read. -/
theorem columnPathWithin_enough (n m : Nat) {s : State} (complete : s.Complete)
    (less : s.remaining < n) (less' : s.remaining < m) :
    columnPathWithin n s = columnPathWithin m s := by
  induction n generalizing m s with
  | zero => omega
  | succ n ih =>
      obtain ⟨m, rfl⟩ : ∃ k, m = k + 1 := ⟨m - 1, by omega⟩
      exact pathThen_congr complete fun _ within fewer => ih m within (by omega) (by omega)

theorem columnPath_eq {s : State} (complete : s.Complete) :
    columnPath s = pathThen columnPath s :=
  pathThen_congr complete fun _ within fewer =>
    columnPathWithin_enough _ _ within fewer (Nat.lt_succ_self _)

end SelectSyntax.Parse
