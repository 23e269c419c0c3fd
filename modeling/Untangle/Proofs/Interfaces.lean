import Untangle.Proofs.Listeners

/-!
# Runs on texts and runs on trees

A run on a text is a run on the tree that was parsed from it, between parsing and printing. One side
carries the grammar along from the parser, the other takes it from the tree; they are the same
grammar, since a parsed tree is marked with the grammar it was read with.

* `parse_grammar` — a parsed tree carries the grammar that the source was read with.
* `PassKind.step_keepsGrammar` — no built-in pass changes the grammar of the program.
* `runPasses_keepsGrammar` — so a list of passes does not, unless one given by the caller does.
* `runProgram_grammar` — and a run does not. With the second stage this holds for any passes: the
  program is then read again with the grammar that it had at first.
-/

namespace Untangle

variable {α : Type}

/-! ### Parsed trees -/

variable {g : Grammar} {parsed : Parsed} {source : String} {settings : ParseSettings} {σ β : Type}
  {passes : List ResolvedPass} {done : Deobfuscated Program} {c : Config}

theorem parseAs_grammar {read : Source.ProgramReader} {loose typescript : Bool}
    (h : Source.parseAs read source loose typescript g = .ok parsed) :
    parsed.grammar = g ∧ parsed.program.grammar = g := by
  unfold Source.parseAs at h
  split at h
  · cases h
    exact ⟨rfl, rfl⟩
  · unfold Source.parseStrict at h
    simp only at h
    split at h
    · cases h
    · split at h
      · cases h
      · cases h
        exact ⟨rfl, rfl⟩

theorem parse_grammar (h : parse source settings = .ok parsed) :
    parsed.program.grammar = parsed.grammar := by
  have same (loose : Bool) (g : Grammar)
      (hp : Source.parseAs Source.readProgram source loose settings.typescript g = .ok parsed) :
      parsed.program.grammar = parsed.grammar := by
    obtain ⟨h₁, h₂⟩ := parseAs_grammar hp
    rw [h₁, h₂]
  unfold parse parseWith at h
  dsimp only at h
  split at h
  · exact same _ _ h
  · exact same _ _ h
  · split at h
    · next p hp =>
      cases h
      exact same false _ hp
    · exact same _ _ h

theorem parse_ofGrammar (h : parse source { settings with sourceType := .ofGrammar g } = .ok parsed)
    :
    parsed.program.grammar = g := by
  cases g with
  | module => exact (parseAs_grammar h).2
  | script => exact (parseAs_grammar h).2

/-! ### Passes -/

@[simp] theorem editProgram_grammar (w : Edits σ) (p : Program) (s : σ) :
    ((editProgram w p).run s).1.grammar = p.grammar := rfl

@[simp] theorem resolved_grammar (p : Program) : p.resolved.grammar = p.grammar := rfl

@[simp] theorem untagged_grammar (p : Program) : p.untagged.grammar = p.grammar := rfl

@[simp] theorem removeDecls_grammar (p : Program) (ids : List Binding) :
    (p.removeDecls ids).1.grammar = p.grammar := by
  unfold Program.removeDecls
  split
  · rfl
  · rfl

namespace Pass

theorem inlineLookupsResolved_grammar (removeUnused : Bool) (p : Program) :
    (inlineLookupsResolved removeUnused p).1.grammar = p.grammar := by
  unfold inlineLookupsResolved
  simp only
  split
  · rfl
  · cases removeUnused with
    | true => exact removeDecls_grammar _ _
    | false => rfl

theorem inlineLookups_grammar (removeUnused : Bool) (p : Program) :
    (inlineLookups removeUnused p).1.grammar = p.grammar := by
  have h := inlineLookupsResolved_grammar removeUnused p.resolved
  unfold inlineLookups
  generalize inlineLookupsResolved removeUnused p.resolved = r at h ⊢
  rw [untagged_grammar, h, resolved_grammar]

theorem inlineRounds_grammar (ps : Proxies) (n : Nat) (p : Program) (used : ProxyTally) :
    (inlineRounds ps n p used).1.grammar = p.grammar := by
  induction n generalizing p used with
  | zero => rfl
  | succ n ih =>
    have hp := editProgram_grammar (proxyEdits ps) p used
    unfold inlineRounds
    generalize (editProgram (proxyEdits ps) p).run used = r at hp ⊢
    obtain ⟨p', used'⟩ := r
    simp only
    split
    · exact hp
    · exact (ih p' used').trans hp

theorem inlineProxiesResolved_grammar (removeUnused : Bool) (rounds : Nat) (p : Program) :
    (inlineProxiesResolved removeUnused rounds p).1.grammar = p.grammar := by
  unfold inlineProxiesResolved
  simp only
  split
  · rfl
  · cases removeUnused with
    | true => exact (removeDecls_grammar _ _).trans (inlineRounds_grammar _ _ _ _)
    | false => exact inlineRounds_grammar _ _ _ _

theorem inlineProxies_grammar (removeUnused : Bool) (rounds : Nat) (p : Program) :
    (inlineProxies removeUnused rounds p).1.grammar = p.grammar := by
  have h := inlineProxiesResolved_grammar removeUnused rounds p.resolved
  unfold inlineProxies
  generalize inlineProxiesResolved removeUnused rounds p.resolved = r at h ⊢
  rw [untagged_grammar, h, resolved_grammar]

theorem removeIdleAtFuel_grammar (t : StringTables) (fuel : Nat) (p : Program) (removed : Nat) :
    (t.removeIdleAtFuel fuel p removed).1.grammar = p.grammar := by
  induction fuel generalizing p removed with
  | zero => rfl
  | succ fuel ih =>
    unfold StringTables.removeIdleAtFuel
    simp only
    split
    · exact removeDecls_grammar _ _
    · exact (ih _ _).trans (removeDecls_grammar _ _)

theorem removeArray_grammar (t : StringTables) (p : Program) (array : Binding) :
    (t.removeArray p array).1.grammar = p.grammar := by
  unfold StringTables.removeArray
  simp only
  split
  · rfl
  · rfl

theorem removeUnused_grammar (t : StringTables) (p : Program) :
    (t.removeUnused p).1.grammar = p.grammar := by
  refine List.foldlRecOn (motive := fun acc : Program × Nat => acc.1.grammar = p.grammar) _ _
    (removeIdleAtFuel_grammar t _ p 0) fun acc hacc array _ => ?_
  exact (removeArray_grammar t acc.1 array.1).trans hacc

theorem decodeStringsResolved_grammar (removeDecoders : Bool) (o : Orders) (p : Program) :
    (decodeStringsResolved removeDecoders p o).1.grammar = p.grammar := by
  unfold decodeStringsResolved
  split
  · rfl
  · cases removeDecoders with
    | true => exact removeUnused_grammar _ _
    | false => rfl

theorem decodeStrings_grammar (removeDecoders : Bool) (o : Orders) (p : Program) :
    (decodeStrings removeDecoders o p).1.grammar = p.grammar := by
  have h := decodeStringsResolved_grammar removeDecoders o p.resolved
  unfold decodeStrings
  generalize decodeStringsResolved removeDecoders p.resolved o = r at h ⊢
  rw [untagged_grammar, h, resolved_grammar]

end Pass

/-- A step that leaves the grammar of the program as it is, also if it fails. -/
def KeepsGrammar (m : PassM α) : Prop :=
  ∀ c : Context, (m.run.run c).2.program.grammar = c.program.grammar

theorem KeepsGrammar.bind {x : PassM α} {f : α → PassM β} (hx : KeepsGrammar x)
    (hf : ∀ a, KeepsGrammar (f a)) : KeepsGrammar (x >>= f) := by
  intro c
  have hc := hx c
  rw [run_bindExcept]
  generalize x.run.run c = r at hc
  rcases r with ⟨e | a, c'⟩
  · exact hc
  · exact (hf a c').trans hc

theorem KeepsGrammar.get {k : Context → PassM α} (hk : ∀ c, KeepsGrammar (k c)) :
    KeepsGrammar (get >>= k) := fun c => hk c c

theorem say_keepsGrammar (level : Level) (text : String) : KeepsGrammar (say level text) :=
  fun _ => rfl

theorem applying_keepsGrammar {f : Program → Program × List Finding}
    (hf : ∀ p, (f p).1.grammar = p.grammar) : KeepsGrammar (applying f) := fun c => hf c.program

namespace PassKind

theorem renameNames_keepsGrammar (onlyMangled : Bool) : KeepsGrammar (renameNames onlyMangled) := by
  have tail : KeepsGrammar (do
      if (← get).program.callsEval then
        say .log "Rename: direct eval found, names left as they are"
      else applying (Pass.rename onlyMangled)) := by
    refine KeepsGrammar.get fun c => ?_
    split
    · exact say_keepsGrammar _ _
    · exact applying_keepsGrammar fun _ => rfl
  refine KeepsGrammar.get fun c => ?_
  split
  · exact (say_keepsGrammar _ _).bind fun _ => tail
  · exact tail

theorem step_keepsGrammar (k : PassKind) (o : PassOptions) : KeepsGrammar (k.step o) := by
  unfold step
  split
  case h_3 => exact applying_keepsGrammar (Pass.inlineLookups_grammar _)
  case h_5 => exact applying_keepsGrammar (Pass.inlineProxies_grammar _ _)
  case h_6 => exact applying_keepsGrammar (Pass.decodeStrings_grammar _ _)
  case h_9 => exact renameNames_keepsGrammar _
  all_goals exact applying_keepsGrammar fun _ => rfl

end PassKind

theorem runPass_keepsGrammar {pass : ResolvedPass} (h : KeepsGrammar pass.apply) :
    KeepsGrammar (runPass pass) :=
  KeepsGrammar.get fun _ => h.bind fun _ => KeepsGrammar.get fun _ => say_keepsGrammar _ _

theorem runPasses_keepsGrammar (h : ∀ pass ∈ passes, KeepsGrammar pass.apply) :
    KeepsGrammar (runPasses passes) := by
  induction passes with
  | nil => exact fun _ => rfl
  | cons pass rest ih =>
    have hpass := runPass_keepsGrammar (h pass List.mem_cons_self)
    exact hpass.bind fun _ => ih fun q hq => h q (List.mem_cons_of_mem _ hq)

/-! ### Stages -/

theorem ok_of_bindExcept {ε : Type} {x : ExceptT ε (StateM σ) α} {f : α → ExceptT ε (StateM σ) β}
    {s : σ} {b : β} (h : ((x >>= f).run.run s).1 = .ok b) :
    ∃ a, (x.run.run s).1 = .ok a ∧ ((f a).run.run (x.run.run s).2).1 = .ok b := by
  rw [run_bindExcept] at h
  rcases hx : x.run.run s with ⟨e | a, s'⟩
  · rw [hx] at h
    cases h
  · rw [hx] at h
    exact ⟨a, rfl, h⟩

theorem runStage_grammar (h : ∀ pass ∈ passes, KeepsGrammar pass.apply) {c : Context}
    {m : List Message} (hrun : ((runStage passes c).run.run m).1 = .ok done) :
    done.output.grammar = c.program.grammar := by
  have hkept := runPasses_keepsGrammar h { c with messages := m }
  change stageResult ((runPasses passes).run.run { c with messages := m }) = .ok done at hrun
  generalize (runPasses passes).run.run { c with messages := m } = r at hkept hrun
  rcases r with ⟨e | _, c'⟩
  · cases hrun
  · cases hrun
    exact hkept

namespace Deobfuscator

variable {d : Deobfuscator} {p : Program} {g : Grammar} {m : List Message}
  {done : Deobfuscated Program}

/-- What comes out of the second stage has the grammar that it is given, whatever the program. -/
theorem renameStage_grammar (h : ∀ pass ∈ d.renamePasses, KeepsGrammar pass.apply)
    (hrun : ((d.renameStage p g).run.run m).1 = .ok done) : done.output.grammar = g := by
  unfold renameStage at hrun
  simp only at hrun
  split at hrun
  · cases hrun
  · next parsed hparsed => exact (runStage_grammar h hrun).trans (parse_ofGrammar hparsed)

theorem process_grammar (h : d.config.rename = true ∨ ∀ pass ∈ d.passes, KeepsGrammar pass.apply)
    (hr : ∀ pass ∈ d.renamePasses, KeepsGrammar pass.apply)
    (hrun : ((d.process p p.grammar).run.run m).1 = .ok done) :
    done.output.grammar = p.grammar := by
  obtain ⟨main, hmain, hrest⟩ := ok_of_bindExcept hrun
  rcases hd : d.config.rename with _ | _
  · rw [hd] at h hrest
    cases hrest
    exact runStage_grammar (h.resolve_left Bool.false_ne_true) hmain
  · rw [hd] at hrest
    obtain ⟨renamed, hrenamed, hlast⟩ := ok_of_bindExcept hrest
    cases hlast
    show renamed.output.grammar = p.grammar
    exact renameStage_grammar hr hrenamed

end Deobfuscator

/-! ### Configured runs -/

theorem deobfuscateProgram_result (c : Config) (p : Program) :
    (deobfuscateProgram c p).1 =
      match Deobfuscator.ofConfig c with
      | .error e => .error (.config e)
      | .ok d => ((d.process p p.grammar).run.run []).1 := by
  unfold deobfuscateProgram
  cases Deobfuscator.ofConfig c with
  | error e => rfl
  | ok d => rfl

/-- Without formatting, a run on a text is a run on the parsed tree whose output is printed. -/
theorem deobfuscate_eq_print (hc : c.format = false)
    (hparsed : parse source c.parseSettings = .ok parsed) :
    (deobfuscate c source).1 = (deobfuscateProgram c parsed.program).1.map fun done =>
      { output := generate done.output c.version, findings := done.findings } := by
  rw [deobfuscate_result, deobfuscateProgram_result]
  cases hd : Deobfuscator.ofConfig c with
  | error e => rfl
  | ok d =>
    obtain ⟨rfl, -⟩ := Deobfuscator.ofConfig_ok hd
    simp only [Deobfuscator.runSource_result, hparsed, Config.finished_unformatted hc,
      parse_grammar hparsed]

theorem deobfuscate_error_of_parse {e : ParseError} (h : parse source c.parseSettings = .error e) :
    ∃ e', (deobfuscate c source).1 = .error e' := by
  rw [deobfuscate_result]
  cases hd : Deobfuscator.ofConfig c with
  | error e => exact ⟨_, rfl⟩
  | ok d =>
    obtain ⟨rfl, -⟩ := Deobfuscator.ofConfig_ok hd
    simp only [Deobfuscator.runSource_result, h]
    exact ⟨_, rfl⟩

/-- The grammar of a program survives a run: with the second stage always, else if the passes given
by the caller keep it. -/
theorem deobfuscateProgram_grammar {p : Program}
    (h : c.rename = true ∨ ∀ pass, .given pass ∈ c.passes → KeepsGrammar pass.apply)
    (hrun : (deobfuscateProgram c p).1 = .ok done) : done.output.grammar = p.grammar := by
  rw [deobfuscateProgram_result] at hrun
  cases hd : Deobfuscator.ofConfig c with
  | error e =>
    rw [hd] at hrun
    cases hrun
  | ok d =>
    rw [hd] at hrun
    obtain ⟨rfl, hpasses, rename, hrename, hlast⟩ := Deobfuscator.ofConfig_ok hd
    refine Deobfuscator.process_grammar (h.imp_right fun hg pass hp => ?_) (fun pass hp => ?_) hrun
    · rcases Config.mem_resolvePasses hpasses hp with ⟨k, o, hk⟩ | hgiven
      · rw [hk]
        exact k.step_keepsGrammar o
      · exact hg pass hgiven
    · rw [hlast, List.mem_singleton] at hp
      obtain ⟨o, ho⟩ := PassKind.apply_of_build hrename
      rw [hp, ho]
      exact PassKind.rename.step_keepsGrammar o

/-- A configured run on a text succeeds exactly when the text can be parsed and the run on the tree
succeeds: with the same findings, and with the output of that run printed. The run on the tree keeps
the grammar, and its failures are those of the run on the text. -/
theorem deobfuscate_agrees_with_tree (c : Config) (hc : c.format = false) (source : String) :
    (∀ text found, (deobfuscate c source).1 = .ok ⟨text, found⟩ ↔
      ∃ parsed tree, parse source c.parseSettings = .ok parsed ∧
        (deobfuscateProgram c parsed.program).1 = .ok ⟨tree, found⟩ ∧
        generate tree c.version = text) ∧
    (∀ parsed done, parse source c.parseSettings = .ok parsed →
      (deobfuscateProgram c parsed.program).1 = .ok done →
      (c.rename = true ∨ ∀ pass, .given pass ∈ c.passes → KeepsGrammar pass.apply) →
      done.output.grammar = parsed.program.grammar) ∧
    (∀ parsed e, parse source c.parseSettings = .ok parsed →
      (deobfuscateProgram c parsed.program).1 = .error e → (deobfuscate c source).1 = .error e) := by
  refine ⟨fun text found => ⟨fun hrun => ?_, ?_⟩, fun parsed done _ hrun hkeep => ?_,
    fun parsed e hparsed hrun => ?_⟩
  · cases hparsed : parse source c.parseSettings with
    | error e =>
      obtain ⟨e', he⟩ := deobfuscate_error_of_parse hparsed
      rw [he] at hrun
      cases hrun
    | ok parsed =>
      rw [deobfuscate_eq_print hc hparsed] at hrun
      rcases htree : (deobfuscateProgram c parsed.program).1 with e | ⟨tree, found'⟩
      · rw [htree] at hrun
        cases hrun
      · rw [htree] at hrun
        cases hrun
        exact ⟨parsed, tree, rfl, htree, rfl⟩
  · rintro ⟨parsed, tree, hparsed, hrun, rfl⟩
    rw [deobfuscate_eq_print hc hparsed, hrun]
    rfl
  · exact deobfuscateProgram_grammar hkeep hrun
  · rw [deobfuscate_eq_print hc hparsed, hrun]
    rfl

def folding : Config where
  format := false
  rename := true
  sourceType := .module
  passes := [.named "Simplify" .null]

theorem folding_agrees :
    folding.format = false ∧
    ∃ parsed tree, parse "let a=1+1" folding.parseSettings = .ok parsed ∧
      (deobfuscateProgram folding parsed.program).1 = .ok ⟨tree,
        [⟨"Simplify", "constant-expressions", 1⟩, ⟨"Rename", "mangled-names", 1⟩]⟩ ∧
      generate tree folding.version = "let num = 2;\n" := by
  have hrun : (deobfuscate folding "let a=1+1").1.toOption = some ⟨"let num = 2;\n",
      [⟨"Simplify", "constant-expressions", 1⟩, ⟨"Rename", "mangled-names", 1⟩]⟩ := by
    decide +kernel
  refine ⟨rfl, ((deobfuscate_agrees_with_tree folding rfl "let a=1+1").1 _ _).1 ?_⟩
  rcases h : (deobfuscate folding "let a=1+1").1 with e | done
  · rw [h] at hrun
    cases hrun
  · rw [h] at hrun
    cases hrun
    rfl

end Untangle
