import Untangle.Source.Parse

/-!
# Readings that note nothing

Where the grammar cannot read an operand or finds a clause without its statement, it notes an error
and leaves a placeholder. Since what has been noted stays noted, a reading that ends with nothing
noted has never left one, and its statements are all what the source says.

* `Gives p P` — whenever `p` ends with nothing noted, `P` holds of its value. The rules for it
  follow the ways parsers are put together; after `note` anything is given.
* `grammar_whole` — by induction on how often the grammar is unrolled, one lemma for each parser
  through which an expression or a statement is passed up.
-/

namespace Untangle.Source

variable {α β : Type} {P : α → Prop} {Q : β → Prop}

/-! ### Rules -/

/-- Whatever a parser gives without anything having been noted satisfies a predicate. -/
def Gives (p : Parser α) (P : α → Prop) : Prop :=
  ∀ c s a s', p.run c s = .done a s' → s'.noted = [] → P a

namespace Gives

variable {a : α} {p : Parser α} {f : α → Parser β} {e : SyntaxError} {pos : Nat}
  {step : α → Parser (Option α)}

theorem pure (h : P a) : Gives (pure a) P := by
  intro c s b s' hrun _
  cases hrun
  exact h

theorem any (h : ∀ a, P a) : Gives p P := fun _ _ a _ _ _ => h a

/-- The rest of a reading starts with nothing noted, if nothing is noted at its end. -/
theorem bind (hp : Gives p P) (hf : ∀ a, P a → Gives (f a) Q) : Gives (p >>= f) Q := by
  intro c s b s' hrun hclean
  change (p.bind f).run c s = .done b s' at hrun
  simp only [Parser.bind] at hrun
  split at hrun
  · next a t ha =>
    have hkept := (f a).keeps c t
    rw [hrun] at hkept
    have ht : t.noted = [] := List.suffix_nil.1 (hclean ▸ hkept)
    exact hf a (hp c s a t ha ht) c t b s' hrun hclean
  · cases hrun

theorem after (hf : ∀ a, Gives (f a) Q) : Gives (p >>= f) Q :=
  bind (P := fun _ => True) (any fun _ => trivial) fun a _ => hf a

section

variable {γ δ ε ζ : Type} {S : ζ → Prop} {p : Parser α} {q : α → Parser β} {u : α → β → Parser γ}
  {v : α → β → γ → Parser δ} {w : α → β → γ → δ → Parser ε}

theorem after₂ {f : α → β → Parser ζ} (hf : ∀ a b, Gives (f a b) S) :
    Gives (p >>= fun a => q a >>= f a) S := after fun a => after (hf a)

theorem after₃ {f : α → β → γ → Parser ζ} (hf : ∀ a b c, Gives (f a b c) S) :
    Gives (p >>= fun a => q a >>= fun b => u a b >>= f a b) S := after fun a => after₂ (hf a)

theorem after₄ {f : α → β → γ → δ → Parser ζ} (hf : ∀ a b c d, Gives (f a b c d) S) :
    Gives (p >>= fun a => q a >>= fun b => u a b >>= fun c => v a b c >>= f a b c) S :=
  after fun a => after₃ (hf a)

theorem after₅ {f : α → β → γ → δ → ε → Parser ζ} (hf : ∀ a b c d e, Gives (f a b c d e) S) :
    Gives (p >>= fun a => q a >>= fun b => u a b >>= fun c => v a b c >>= fun d =>
      w a b c d >>= f a b c d) S := after fun a => after₄ (hf a)

end

theorem branch {p : Parser Bool} {x y : Parser α} (hx : Gives x P) (hy : Gives y P) :
    Gives (p >>= fun b => if b then x else y) P := after fun b => by
  split
  · exact hx
  · exact hy

/-- After a part that cannot end with nothing noted there is nothing to show. -/
theorem stops (hp : Gives p fun _ => False) :
    Gives (p >>= f) Q := bind hp fun _ h => h.elim

/-- After a check only that it passes matters, if nothing clean comes of its failing. -/
theorem check {c : Prop} [Decidable c] {y : Parser β} (hp : Gives p fun _ => False)
    (hy : Gives y Q) : Gives (if c then p >>= f else y) Q := by
  split
  · exact stops hp
  · exact hy

theorem map {f : α → β} (hp : Gives p fun a => Q (f a)) : Gives (f <$> p) Q :=
  bind hp fun _ h => pure h

theorem mono {P' : α → Prop} (hp : Gives p P) (h : ∀ a, P a → P' a) :
    Gives p P' := fun c s a s' hrun hclean => h a (hp c s a s' hrun hclean)

theorem throw {e : Located} : Gives (throw e) P := by
  intro c s a s' hrun
  cases hrun

theorem tryCatch {handle : Located → Parser α} (hp : Gives p P) (hh : ∀ e, Gives (handle e) P) :
    Gives (tryCatch p handle) P := by
  intro c s a s' hrun hclean
  change (p.tryCatch handle).run c s = .done a s' at hrun
  simp only [Parser.tryCatch] at hrun
  split at hrun
  · next b t hb =>
    cases hrun
    exact hp c s a s' hb hclean
  · next e t he => exact hh e c t a s' hrun hclean

theorem withReader {f : Context → Context} (hp : Gives p P) :
    Gives (withReader f p) P := fun c => hp (f c)

theorem attempt (hp : Gives p P) : Gives p.attempt fun r => ∀ a, r = some a → P a := by
  intro c s r s' hrun hclean a hr
  subst hr
  simp only [Parser.attempt] at hrun
  split at hrun
  · next b t hb =>
    cases hrun
    exact hp c s a s' hb hclean
  · cases hrun

theorem note {P : Unit → Prop} : Gives (note pos e) P := by
  intro c s a s' hrun hclean
  cases hrun
  cases hclean

theorem failAt : Gives (failAt pos e) P := throw

theorem failHere : Gives (failHere e) P := after fun _ => failAt

theorem unexpected {wanted : String} : Gives (unexpected wanted) P := after fun _ => failHere

theorem repeatAtMost {step : Parser (Option α)} (hstep : Gives step fun r => ∀ a, r = some a → P a)
    (n : Nat) {acc : List α} (hacc : ∀ a ∈ acc, P a) :
    Gives (repeatAtMost step n acc) fun as => ∀ a ∈ as, P a := by
  induction n generalizing acc with
  | zero => exact failHere
  | succ n ih =>
    refine bind hstep fun r hr => ?_
    cases r with
    | none => exact pure fun a ha => hacc a (List.mem_reverse.1 ha)
    | some a =>
      refine ih fun b hb => ?_
      rcases List.mem_cons.1 hb with rfl | hb
      · exact hr b rfl
      · exact hacc b hb

theorem repeatWhileSome {step : Parser (Option α)}
    (hstep : Gives step fun r => ∀ a, r = some a → P a) :
    Gives (repeatWhileSome step) fun as => ∀ a ∈ as, P a :=
  after fun _ => repeatAtMost hstep _ nofun

theorem iterateAtMost (hstep : ∀ a, P a → Gives (step a) fun r => ∀ b, r = some b → P b) (n : Nat)
    (ha : P a) : Gives (iterateAtMost step n a) P := by
  induction n generalizing a with
  | zero => exact failHere
  | succ n ih =>
    refine bind (hstep a ha) fun r hr => ?_
    cases r with
    | none => exact pure ha
    | some b => exact ih (hr b rfl)

theorem iterateWhileSome (hstep : ∀ a, P a → Gives (step a) fun r => ∀ b, r = some b → P b)
    (ha : P a) : Gives (iterateWhileSome step a) P :=
  after fun _ => iterateAtMost hstep _ ha

end Gives

/-! ### Expressions -/

/-- An expression that is not only a placeholder. -/
def Cover.Whole (c : Cover) : Prop := c.expr ≠ .placeholder

def WholeStmt (s : Stmt) : Prop := s ≠ placeholderStmt

/-- Rules that give no placeholder. -/
structure Rules.Whole (r : Rules) : Prop where
  assignment : Gives r.assignment Cover.Whole
  unary : Gives r.unary Cover.Whole
  binaryTail : ∀ least c, c.Whole → Gives (r.binaryTail least c) Cover.Whole
  member : Gives r.member Cover.Whole
  leftHand : Gives r.leftHand Cover.Whole
  statement : ∀ decls top, Gives (r.statement decls top) fun s => WholeStmt s.value

variable {start least : Nat} {isAsync canBeArrow noCall isAwait decls isTypeList top : Bool}
  {callee : Option Ident} {prop : MemberProp} {c left : Cover} {head : ForHead}

theorem cover_whole {e : Expr} (h : e ≠ .placeholder) :
    Gives (cover start e) Cover.Whole := .after fun _ => .pure h

theorem coverParts_whole {e : Expr} {parts : List Cover} {comma : Option Nat} (h : e ≠ .placeholder) :
    Gives (coverParts start e parts comma) Cover.Whole :=
  .bind (cover_whole h) fun _ hc => .pure hc

variable {r : Rules}

theorem expression_whole (h : r.Whole) : Gives (expression r) Cover.Whole := by
  refine .bind h.assignment fun first hfirst => .after fun more => ?_
  split
  · exact .after fun _ => cover_whole nofun
  · exact .pure hfirst

/-! #### Primary expressions -/

theorem functionExpression_whole : Gives (functionExpression r start isAsync) Cover.Whole :=
  .after₄ fun _ _ _ _ => cover_whole nofun

theorem classExpression_whole : Gives (classExpression r start) Cover.Whole :=
  .after fun _ => cover_whole nofun

theorem arrayLiteral_whole : Gives (arrayLiteral r) Cover.Whole :=
  .after₄ fun _ _ _ _ => coverParts_whole nofun

theorem objectLiteral_whole : Gives (objectLiteral r) Cover.Whole :=
  .after₂ fun _ _ => coverParts_whole nofun

theorem regexLiteral_whole : Gives regexLiteral Cover.Whole := by
  refine .after₂ fun s c => ?_
  split
  · exact .after₂ fun _ _ => cover_whole nofun
  · exact .after fun _ => .throw

theorem arrowTail_whole {params : List Pat} {ret : Option TypeExpr} :
    Gives (arrowTail r start isAsync params ret) Cover.Whole :=
  .after fun _ => cover_whole nofun

theorem typedArrow_whole : Gives (typedArrow r start isAsync) Cover.Whole :=
  .after₃ fun _ _ _ => arrowTail_whole

theorem parenthesisedItems_whole {stop : Nat} {items : List Cover} :
    Gives (parenthesisedItems start stop items) Cover.Whole := by
  unfold parenthesisedItems
  simp only
  split
  · exact .failAt
  · exact .failAt
  · exact .pure nofun
  · exact .pure nofun

theorem parenthesisedPlain_whole :
    Gives (parenthesisedPlain r start canBeArrow callee) Cover.Whole := by
  refine .after₄ fun _ (items, comma) s arrow => ?_
  dsimp only
  split
  · refine .after fun newline => ?_
    refine .check .failAt ?_
    split
    · exact .after₂ fun _ _ => arrowTail_whole
    · exact .stops .failAt
  · refine .after fun _ => ?_
    split
    · exact cover_whole nofun
    · exact parenthesisedItems_whole

theorem parenthesised_whole : Gives (parenthesised r start canBeArrow callee) Cover.Whole := by
  refine .after fun ctx => ?_
  dsimp only
  split
  · refine .bind typedArrow_whole.attempt fun typed htyped => ?_
    split
    · exact .pure (htyped _ rfl)
    · exact parenthesisedPlain_whole
  · exact parenthesisedPlain_whole

theorem asyncArrow_whole {id : Ident} : Gives (asyncArrow r start id) Cover.Whole := by
  refine .after₃ fun ctx isOf next => ?_
  dsimp only
  split
  · split
    · exact cover_whole nofun
    · exact .stops .note
  · exact .after₂ fun _ _ => arrowTail_whole

theorem identifierExpression_whole :
    Gives (identifierExpression r start canBeArrow) Cover.Whole := by
  refine .after₂ fun next isAsync => ?_
  split
  · exact .after fun _ => functionExpression_whole
  refine .after₄ fun _ id _ _ => ?_
  split
  · exact asyncArrow_whole
  refine .after fun _ => ?_
  split
  · exact parenthesised_whole
  refine .branch (.after fun _ => arrowTail_whole) ?_
  exact cover_whole nofun

theorem literal_whole {l : Lit} : Gives (literal start l) Cover.Whole :=
  .after fun _ => cover_whole nofun

theorem primary_whole : Gives (primary r) Cover.Whole := by
  refine .after₃ fun start s token => ?_
  split
  · exact .throw
  · exact literal_whole
  · exact literal_whole
  · exact literal_whole
  · exact .after fun _ => cover_whole nofun
  · exact arrayLiteral_whole
  · exact objectLiteral_whole
  · exact parenthesised_whole
  · exact regexLiteral_whole
  · exact regexLiteral_whole
  · exact .after₂ fun _ _ => cover_whole nofun
  · exact .after fun _ => cover_whole nofun
  · exact literal_whole
  · exact literal_whole
  · exact literal_whole
  · exact functionExpression_whole
  · exact classExpression_whole
  · refine .after₂ fun _ _ => ?_
    split
    · exact identifierExpression_whole
    · exact .failHere

/-! #### Accesses and calls -/

theorem access_ne {optional : Bool} {obj : Expr} : access optional obj prop ≠ .placeholder := by
  unfold access
  split
  · exact nofun
  · exact nofun

theorem some_cover_whole {e : Expr} (h : e ≠ .placeholder) :
    Gives (some <$> cover start e) fun o => ∀ c, o = some c → c.Whole :=
  .map <| (cover_whole h).mono fun _ hc _ hsome => Option.some.inj hsome ▸ hc

theorem optionalSubscript_whole : Gives (optionalSubscript r c) Cover.Whole := by
  refine .branch (.after fun _ => cover_whole access_ne) ?_
  refine .branch (.after fun _ => cover_whole nofun) ?_
  exact .after fun _ => cover_whole access_ne

theorem subscript_whole : Gives (subscript r noCall c) fun o => ∀ c', o = some c' → c'.Whole := by
  refine .after fun _ => ?_
  split
  · exact .map <| optionalSubscript_whole.mono fun _ hc _ hsome => Option.some.inj hsome ▸ hc
  refine .branch (.after fun _ => some_cover_whole access_ne) ?_
  refine .after fun _ => ?_
  split
  · refine .after fun _ => some_cover_whole ?_
    split
    · exact nofun
    · exact nofun
  refine .branch (.after fun _ => some_cover_whole access_ne) ?_
  refine .after fun _ => ?_
  split
  · refine .after fun _ => ?_
    refine .check .note ?_
    exact some_cover_whole nofun
  refine .after₃ fun _ _ _ => ?_
  split
  · exact .after fun _ => some_cover_whole nofun
  · exact .pure nofun

theorem subscripts_whole (h : c.Whole) : Gives (subscripts r noCall c) Cover.Whole :=
  .iterateWhileSome (fun _ _ => subscript_whole) h

theorem superAccess_whole : Gives (superAccess start prop) Cover.Whole := by
  refine .after fun ctx => ?_
  split
  · exact .failAt
  · split
    · exact .failHere
    · exact cover_whole nofun

theorem superExpression_whole : Gives (superExpression r noCall) Cover.Whole := by
  refine .after₃ fun _ _ _ => ?_
  split
  · refine .branch (.after fun _ => .failHere) ?_
    refine .after fun _ => ?_
    dsimp only
    split
    · exact .after₂ fun _ _ => .failAt
    · exact .after₂ fun _ _ => .failAt
  refine .branch (.after fun _ => superAccess_whole) ?_
  refine .after fun _ => ?_
  split
  · exact .after fun _ => cover_whole nofun
  refine .branch (.after fun _ => superAccess_whole) ?_
  exact .failHere

theorem importExpression_whole : Gives (importExpression r noCall) Cover.Whole := by
  refine .after₃ fun _ _ _ => ?_
  split
  · refine .after fun _ => ?_
    split
    · refine .after fun _ => ?_
      dsimp only
      split
      · exact cover_whole nofun
      · exact .stops .note
    · exact .unexpected
  refine .after fun _ => ?_
  split
  · exact .after fun _ => cover_whole nofun
  · exact .failHere

theorem memberRule_whole (h : r.Whole) : Gives (memberRule r) Cover.Whole := by
  refine .after₂ fun _ _ => ?_
  split
  · refine .after fun _ => ?_
    split
    · refine .after fun _ => ?_
      split
      · refine .after fun _ => ?_
        dsimp only
        split
        · exact .bind (cover_whole nofun) fun _ hc => subscripts_whole hc
        · exact .stops .note
      · exact .unexpected
    · refine .bind h.member fun callee hcallee => ?_
      split
      · exact .pure hcallee
      · refine .after₂ fun _ _ => ?_
        split
        · exact .after fun _ => .bind (cover_whole nofun) fun _ hc => subscripts_whole hc
        · exact cover_whole nofun
  refine .branch (.bind superExpression_whole fun _ hc => subscripts_whole hc) ?_
  refine .branch (.bind importExpression_whole fun _ hc => subscripts_whole hc) ?_
  refine .bind primary_whole fun c hc => ?_
  split
  · exact .pure hc
  · exact subscripts_whole hc

theorem leftHandRule_whole (h : r.Whole) : Gives (leftHandRule r) Cover.Whole := by
  refine .branch (.bind superExpression_whole fun _ hc => subscripts_whole hc) ?_
  refine .branch (.bind importExpression_whole fun _ hc => subscripts_whole hc) ?_
  refine .bind (memberRule_whole h) fun c hc => ?_
  split
  · exact .pure hc
  · exact .pure hc
  · refine .branch (subscripts_whole hc) ?_
    exact .pure hc

/-! #### Operators -/

theorem awaitExpression_whole : Gives (awaitExpression r start) Cover.Whole := by
  refine .after₂ fun _ _ => ?_
  refine .check .failHere ?_
  refine .after₂ fun ctx isName => ?_
  split
  · refine .check .note ?_
    exact cover_whole nofun
  · refine .check .note ?_
    refine .check .note ?_
    refine .check .note ?_
    exact .after fun _ => cover_whole nofun

theorem unaryRule_whole (h : r.Whole) : Gives (unaryRule r) Cover.Whole := by
  refine .after₂ fun start token => ?_
  dsimp only
  split
  · exact .after₃ fun _ _ _ => cover_whole nofun
  · refine .after₂ fun _ _ => ?_
    split
    · exact .after fun _ => cover_whole nofun
    · exact cover_whole nofun
  · refine .after₂ fun _ _ => ?_
    split
    · exact .after₄ fun _ _ _ _ => cover_whole nofun
    refine .branch awaitExpression_whole ?_
    refine .bind h.leftHand fun c hc => .after fun _ => ?_
    split
    · exact .pure hc
    refine .after fun _ => ?_
    split
    · exact .after₂ fun _ _ => cover_whole nofun
    · exact .pure hc

theorem binaryStep_whole : Gives (binaryStep r least left) fun o => ∀ c, o = some c → c.Whole := by
  refine .after₄ fun _ _ _ _ => ?_
  split
  · exact .after₂ fun _ _ => some_cover_whole nofun
  refine .after fun op => ?_
  split
  · exact .pure nofun
  split
  · exact .pure nofun
  refine .after fun _ => ?_
  refine .check .failHere ?_
  refine .after₂ fun first right => ?_
  -- Operators that must not be mixed are noted on either side.
  split
  case h_4 => exact some_cover_whole nofun
  all_goals
    refine .check .note ?_
    refine .check .note ?_
    exact some_cover_whole nofun

theorem binaryTailRule_whole (h : left.Whole) :
    Gives (binaryTailRule r least left) Cover.Whole := by
  unfold binaryTailRule
  split
  · exact .pure h
  · exact .iterateWhileSome (fun _ _ => binaryStep_whole) h

theorem binaryExpression_whole (h : r.Whole) : Gives (binaryExpression r) Cover.Whole := by
  refine .bind (.tryCatch h.unary fun e => ?_) fun left hleft => h.binaryTail 0 left hleft
  refine .after fun op => ?_
  split
  · exact .after fun _ => .stops .note
  · exact .throw

theorem conditional_whole (h : r.Whole) : Gives (conditional r) Cover.Whole := by
  refine .bind (binaryExpression_whole h) fun test htest => ?_
  split
  · exact .pure htest
  refine .branch (.after₃ fun _ _ _ => cover_whole nofun) ?_
  exact .pure htest

theorem yieldExpression_whole : Gives (yieldExpression r start) Cover.Whole := by
  refine .after₂ fun _ _ => ?_
  refine .check .failAt ?_
  refine .after₂ fun _ _ => ?_
  split
  · exact cover_whole nofun
  · exact .after₂ fun _ _ => cover_whole nofun

theorem plainAssignment_whole (h : r.Whole) : Gives (plainAssignment r) Cover.Whole := by
  refine .bind (conditional_whole h) fun c hc => ?_
  split
  · exact .pure hc
  refine .after fun _ => ?_
  split
  · exact .pure hc
  dsimp only
  split
  · exact .after₃ fun _ _ _ => cover_whole nofun
  · exact .after₃ fun _ _ _ => cover_whole nofun

theorem assignmentRule_whole (h : r.Whole) : Gives (assignmentRule r) Cover.Whole := by
  refine .after₃ fun start _ _ => ?_
  split
  · exact yieldExpression_whole
  refine .after fun _ => ?_
  dsimp only
  split
  · exact .after fun _ => plainAssignment_whole h
  · exact .after fun _ => plainAssignment_whole h
  · exact plainAssignment_whole h

/-! ### Statements -/

theorem spanned_whole {s : Stmt} (h : WholeStmt s) :
    Gives (spanned start s) fun t => WholeStmt t.value := .after fun _ => .pure h

theorem placed_whole {p : Parser Stmt} (h : Gives p WholeStmt) :
    Gives (do spanned start (← p)) fun t => WholeStmt t.value := .bind h fun _ hs => spanned_whole hs

theorem jump_whole {isBreak : Bool} : Gives (jump start isBreak) fun t => WholeStmt t.value := by
  refine .after₃ fun _ ctx label => ?_
  dsimp only
  split
  · refine .check .note ?_
    refine .check .note ?_
    exact spanned_whole nofun
  · refine .check .note ?_
    refine .check .note ?_
    exact spanned_whole nofun

/-! #### Loops -/

theorem loopOver_whole : Gives (loopOver r isAwait head) WholeStmt := by
  refine .branch (.after₃ fun _ _ _ => .pure nofun) ?_
  exact .after₄ fun _ _ _ _ => .pure nofun

theorem countingLoop_whole : Gives (countingLoop r head) WholeStmt :=
  .after₄ fun _ _ _ _ => .pure nofun

theorem loopAfterHead_whole : Gives (loopAfterHead r isAwait) WholeStmt := by
  refine .after fun kind => ?_
  dsimp only
  split
  · refine .after₂ fun _ _ => ?_
    split
    · exact .after fun _ => loopOver_whole
    · exact .after fun _ => countingLoop_whole
  · refine .branch countingLoop_whole ?_
    refine .after₂ fun _ _ => ?_
    split
    · exact .after fun _ => loopOver_whole
    · exact .after fun _ => countingLoop_whole

theorem forLoop_whole : Gives (forLoop r) WholeStmt := by
  refine .after₄ fun _ _ isAwait _ => ?_
  refine .bind loopAfterHead_whole fun s hs => ?_
  split
  · exact .pure hs
  · exact .failAt
  · exact .pure hs

theorem doWhileStatement_whole : Gives (doWhileStatement r) WholeStmt :=
  .after₅ fun _ _ _ _ _ => .pure nofun

/-! #### Compound statements -/

theorem ifStatement_whole : Gives (ifStatement r) WholeStmt := by
  refine .after₄ fun _ _ _ _ => ?_
  split
  · exact .after fun _ => .pure nofun
  · exact .pure nofun

theorem switchStatement_whole : Gives (switchStatement r) WholeStmt :=
  .after₅ fun _ _ _ _ _ => .pure nofun

theorem tryStatement_whole : Gives (tryStatement r) WholeStmt := by
  refine .after₅ fun _ _ _ _ _ => ?_
  refine .check .note ?_
  exact .pure nofun

theorem strayClause_whole : Gives (strayClause r) WholeStmt := .after fun _ => .stops .note

theorem throwStatement_whole : Gives (throwStatement r) WholeStmt := by
  refine .after₂ fun _ _ => ?_
  refine .check .failHere ?_
  exact .after₂ fun _ _ => .pure nofun

theorem returnStatement_whole : Gives (returnStatement r start) WholeStmt := by
  refine .after₃ fun _ _ _ => ?_
  refine .check .note ?_
  exact .pure nofun

theorem withStatement_whole : Gives (withStatement r start) WholeStmt := by
  refine .after fun _ => ?_
  refine .check .note ?_
  exact .after₄ fun _ _ _ _ => .pure nofun

theorem labelledStatement_whole {label : Ident} : Gives (labelledStatement r label) WholeStmt := by
  refine .after₂ fun _ _ => ?_
  refine .check .note ?_
  exact .pure nofun

theorem whole_expr {e : Expr} (h : e ≠ .placeholder) : WholeStmt (.expr e) :=
  fun hs => h (Stmt.expr.inj hs)

theorem expressionEnd_whole (h : c.Whole) :
    Gives (expressionEnd r start c) fun t => WholeStmt t.value := by
  refine .branch (spanned_whole (whole_expr h)) ?_
  refine .after fun op => ?_
  split
  · exact .after fun _ => .stops .note
  · exact .failHere

theorem expressionStatement_whole (h : r.Whole) :
    Gives (expressionStatement r start) fun t => WholeStmt t.value := by
  refine .bind (expression_whole h).withReader fun c hc => ?_
  split
  · refine .branch (placed_whole labelledStatement_whole) ?_
    exact expressionEnd_whole hc
  · exact expressionEnd_whole hc

theorem plainStatement_whole (h : r.Whole) :
    Gives (plainStatement r decls start) fun t => WholeStmt t.value := by
  refine .after fun token => ?_
  dsimp only
  split
  · exact placed_whole <| .map <| .any nofun
  · exact .after fun _ => spanned_whole nofun
  · exact jump_whole
  · exact jump_whole
  · exact placed_whole <| .after₂ fun _ _ => .pure nofun
  · exact placed_whole doWhileStatement_whole
  · exact placed_whole forLoop_whole
  · exact placed_whole <| .after₃ fun _ _ _ => .pure nofun
  · exact placed_whole <| .after₂ fun _ _ => .pure nofun
  · exact placed_whole <| .after₂ fun _ _ => .pure nofun
  · exact placed_whole ifStatement_whole
  · exact placed_whole returnStatement_whole
  · exact placed_whole switchStatement_whole
  · exact placed_whole throwStatement_whole
  · exact placed_whole tryStatement_whole
  · exact placed_whole strayClause_whole
  · exact placed_whole strayClause_whole
  · exact placed_whole withStatement_whole
  · refine .after₂ fun next _ => ?_
    split
    · exact .after fun _ => placed_whole <| .after fun _ => .pure nofun
    refine .after fun kind => ?_
    split
    · split
      · exact placed_whole <| .map <| .map <| .any nofun
      · exact expressionStatement_whole h
    · exact expressionStatement_whole h

theorem statementRule_whole (h : r.Whole) :
    Gives (statementRule r decls) fun t => WholeStmt t.value := by
  refine .after₃ fun start _ typed => ?_
  split
  · exact spanned_whole nofun
  · exact plainStatement_whole h

/-! #### Imports and exports -/

theorem importDeclaration_whole : Gives (importDeclaration r) WholeStmt := by
  refine .after₂ fun _ token => ?_
  split
  · exact .after₃ fun _ _ _ => .pure nofun
  · exact .after₄ fun _ _ _ _ => .after₃ fun _ _ _ => .pure nofun

theorem exportDefault_whole : Gives (exportDefault r) WholeStmt := by
  refine .after₃ fun _ next _ => ?_
  dsimp only
  split
  · exact .after₄ fun _ _ _ _ => .pure nofun
  refine .after fun _ => ?_
  split
  · exact .after₅ fun _ _ _ _ _ => .pure nofun
  refine .branch (.after fun _ => .pure nofun) ?_
  refine .after₂ fun _ _ => ?_
  split
  · exact .after₂ fun _ _ => .pure nofun
  refine .after₂ fun _ _ => ?_
  split
  · exact .after₂ fun _ _ => .pure nofun
  · exact .after₂ fun _ _ => .pure nofun

theorem exportedNames_whole : Gives (exportedNames r isTypeList) WholeStmt := by
  refine .after₃ fun _ _ _ => ?_
  split
  · exact .after fun _ => .pure nofun
  · exact .after₂ fun _ _ => .pure nofun

theorem exportTail_whole : Gives (exportTail r isTypeList) WholeStmt := by
  refine .branch exportDefault_whole ?_
  refine .after fun _ => ?_
  split
  · refine .branch (.after₂ fun _ _ => .pure nofun) ?_
    exact .after fun _ => .pure nofun
  refine .after fun _ => ?_
  split
  · refine .after fun _ => ?_
    split
    · exact .pure nofun
    · exact .failAt
  refine .after fun _ => ?_
  split
  · exact .pure nofun
  · exact exportedNames_whole

theorem exportDeclaration_whole : Gives (exportDeclaration r) WholeStmt := by
  refine .after₄ fun _ _ _ _ => ?_
  dsimp only
  split
  · exact .after fun _ => exportTail_whole
  · exact exportTail_whole

theorem importStatement_whole (h : r.Whole) :
    Gives (importStatement r start) fun t => WholeStmt t.value :=
  .bind (expression_whole h) fun _ hc => .after fun _ => spanned_whole (whole_expr hc)

theorem itemRule_whole (h : r.Whole) : Gives (itemRule r decls top) fun t => WholeStmt t.value := by
  refine .after₂ fun start _ => ?_
  split
  · exact importStatement_whole h
  refine .after₂ fun _ _ => ?_
  split
  · refine .after fun _ => ?_
    split
    · exact .failHere
    refine .after fun _ => ?_
    dsimp only
    split
    · exact placed_whole importDeclaration_whole
    · exact placed_whole exportDeclaration_whole
  · exact statementRule_whole h

/-! ### Whole sources -/

theorem none_whole : Rules.none.Whole where
  assignment := .failHere
  unary := .failHere
  binaryTail _ _ _ := .failHere
  member := .failHere
  leftHand := .failHere
  statement _ _ := .failHere

theorem unroll_whole (h : r.Whole) : r.unroll.Whole where
  assignment := assignmentRule_whole h
  unary := unaryRule_whole h
  binaryTail _ _ hc := binaryTailRule_whole hc
  member := memberRule_whole h
  leftHand := leftHandRule_whole h
  statement _ _ := itemRule_whole h

theorem grammar_whole (n : Nat) : (grammar n).Whole := by
  induction n with
  | zero => exact none_whole
  | succ n ih => exact unroll_whole ih

theorem statements_whole (h : r.Whole) :
    Gives (statements r top) fun ss => ∀ s ∈ ss, WholeStmt s.value := by
  refine .repeatWhileSome (.after₂ fun _ _ => ?_)
  split
  · exact .pure nofun
  · exact .map <| (h.statement true top).mono fun _ hs _ hsome => Option.some.inj hsome ▸ hs

theorem sourceStatements_whole (h : r.Whole) :
    Gives (sourceStatements r) fun ss => ∀ s ∈ ss, WholeStmt s.value := by
  refine .branch ((statements_whole h).withReader) ?_
  exact statements_whole h

/-- A source that is read without anything being noted has no placeholder among its statements. -/
theorem readProgram_whole {mode : ReadMode} {source : Cursor} {r : Reading}
    (h : readProgram mode source = .ok r) (hclean : r.noted = []) :
    ∀ s ∈ r.body, WholeStmt s.value := by
  have hbody (n : Nat) : Gives (do
      let body ← sourceStatements (grammar n)
      flushRemarks
      return body) fun ss => ∀ s ∈ ss, WholeStmt s.value :=
    .bind (sourceStatements_whole (grammar_whole n)) fun _ hss => .after fun _ => .pure hss
  unfold readProgram at h
  simp only at h
  split at h
  · next body s hrun =>
    cases h
    exact hbody _ _ _ body s hrun (List.reverse_eq_nil_iff.1 hclean)
  · cases h

end Untangle.Source
