import Untangle.Pipeline
import Untangle.Proofs.Editing

/-!
# Who listens does not matter

Two runs on one source are compared. Their configurations ask for the same work and may differ in
who listens (`quiet`, `logger`) and in what is done to the printed code (`format`, `formatter`,
`unwrapChains`). What passes read of a context is the same in both runs from beginning to end, so
that both fail alike or both find the same.

* `Context.SameWork` — contexts that differ in nothing but who listens and what has been heard.
* `Indifferent` — a step that leads from such contexts to the same result and to such contexts.
* `PassKind.step_indifferent` — every built-in pass is indifferent. A pass given by the caller may
  look at the context as it likes, so for one of those it is an assumption.
* `runPass_indifferent`, `runPasses_indifferent` — one pass, and by induction a list of them.
* `Deobfuscator.process_sameResult` — the stages of a run, whatever has been heard before.
* `deobfuscate_cases` — two runs fail alike, or print and find the same.

Formatting comes last and only touches the printed code: `Deobfuscator.runSource_result`.
-/

namespace Untangle

variable {σ τ ε α β : Type}

/-! ### Steps that may fail -/

/-- Two steps that may fail agree if their first parts do and, when these succeed, the rests do. -/
theorem Agree.bindExcept {R : σ → τ → Prop} {x : ExceptT ε (StateM σ) α}
    {y : ExceptT ε (StateM τ) α} {f : α → ExceptT ε (StateM σ) β} {g : α → ExceptT ε (StateM τ) β}
    (h : Agree R x.run y.run) (hf : ∀ a, Agree R (f a).run (g a).run) :
    Agree R (x >>= f).run (y >>= g).run := by
  rw [ExceptT.run_bind, ExceptT.run_bind]
  refine Agree.bind h fun r => ?_
  cases r with
  | ok a => exact hf a
  | error e => exact Agree.pure _

theorem run_bindExcept (x : ExceptT ε (StateM σ) α) (f : α → ExceptT ε (StateM σ) β) (s : σ) :
    (x >>= f).run.run s = match x.run.run s with
      | (.ok a, s') => (f a).run.run s'
      | (.error e, s') => (.error e, s') := by
  rw [ExceptT.run_bind, StateT.run_bind]
  rcases x.run.run s with ⟨r | a, s'⟩
  · rfl
  · rfl

/-! ### Passes -/

/-- Contexts that differ in nothing but who listens and what has been heard. -/
structure Context.SameWork (c₁ c₂ : Context) : Prop where
  program : c₁.program = c₂.program
  hash : c₁.hash = c₂.hash
  findings : c₁.findings = c₂.findings

/-- A step whose result, program and findings do not depend on who listens. -/
def Indifferent (m : PassM α) : Prop := Agree Context.SameWork m.run m.run

/-- What follows a look at something that the contexts share. -/
theorem indifferent_get {k : Context → PassM α}
    (h : ∀ c₁ c₂ : Context, c₁.SameWork c₂ → k c₁ = k c₂) (hk : ∀ c, Indifferent (k c)) :
    Indifferent (get >>= k) := by
  intro c₁ c₂ hc
  show ((k c₁).run c₁).1 = ((k c₂).run c₂).1 ∧
    Context.SameWork ((k c₁).run c₁).2 ((k c₂).run c₂).2
  rw [h c₁ c₂ hc]
  exact hk c₂ c₁ c₂ hc

theorem say_indifferent (level : Level) (text : String) : Indifferent (say level text) :=
  fun _ _ h => ⟨rfl, h.program, h.hash, h.findings⟩

theorem applying_indifferent (f : Program → Program × List Finding) : Indifferent (applying f) := by
  intro c₁ c₂ h
  refine ⟨rfl, ?_, h.hash, ?_⟩
  · show (f c₁.program).1 = (f c₂.program).1
    rw [h.program]
  · show c₁.findings ++ _ = c₂.findings ++ _
    rw [h.findings, h.program]

variable {pass : ResolvedPass} {c c₁ c₂ : Config} {passes : List ResolvedPass} {d : Deobfuscator}

namespace PassKind

theorem renameNames_indifferent (onlyMangled : Bool) : Indifferent (renameNames onlyMangled) := by
  have tail : Indifferent (do
      if (← get).program.callsEval then
        say .log "Rename: direct eval found, names left as they are"
      else applying (Pass.rename onlyMangled)) := by
    refine indifferent_get (fun c₁ c₂ h => by rw [h.program]) fun c => ?_
    split
    · exact say_indifferent _ _
    · exact applying_indifferent _
  refine indifferent_get (fun c₁ c₂ h => by rw [h.hash]) fun c => ?_
  split
  · exact Agree.bindExcept (say_indifferent _ _) fun _ => tail
  · exact tail

theorem step_indifferent (k : PassKind) (o : PassOptions) : Indifferent (k.step o) := by
  unfold step
  split
  case h_9 => exact renameNames_indifferent _
  all_goals exact applying_indifferent _

theorem apply_of_build {k : PassKind} {options : Json} (h : k.build options = .ok pass) :
    ∃ o, pass.apply = k.step o := by
  unfold build at h
  cases hm : k.mergeOptions options with
  | error e => simp [hm, bind, Except.bind] at h
  | ok merged =>
    simp only [hm, bind, Except.bind] at h
    split at h
    · cases h
    · cases h
      exact ⟨_, rfl⟩

end PassKind

theorem exists_of_mem_mapM {f : α → Except ε β} {xs : List α} {ys : List β}
    (h : xs.mapM f = .ok ys) {y : β} (hy : y ∈ ys) : ∃ x ∈ xs, f x = .ok y := by
  induction xs generalizing ys with
  | nil =>
    cases h
    cases hy
  | cons x xs ih =>
    rw [List.mapM_cons] at h
    cases hx : f x with
    | error e => simp [hx, bind, Except.bind] at h
    | ok z =>
      cases hxs : xs.mapM f with
      | error e => simp [hx, hxs, bind, Except.bind] at h
      | ok zs =>
        simp only [hx, hxs, bind, Except.bind, pure, Except.pure, Except.ok.injEq] at h
        subst h
        rcases List.mem_cons.1 hy with rfl | hy
        · exact ⟨x, List.mem_cons_self, hx⟩
        · obtain ⟨w, hw, hf⟩ := ih hxs hy
          exact ⟨w, List.mem_cons_of_mem _ hw, hf⟩

theorem Config.mem_resolvePasses (h : c.resolvePasses = .ok passes) (hp : pass ∈ passes) :
    (∃ (k : PassKind) (o : PassOptions), pass.apply = k.step o) ∨ .given pass ∈ c.passes := by
  unfold resolvePasses at h
  split at h
  · obtain ⟨k, _, hk⟩ := exists_of_mem_mapM h hp
    exact .inl ⟨k, PassKind.apply_of_build hk⟩
  · obtain ⟨spec, hspec, hk⟩ := exists_of_mem_mapM h hp
    cases spec with
    | given q =>
      cases hk
      exact .inr hspec
    | named name options =>
      simp only [resolvePass, bind, Except.bind] at hk
      split at hk
      · cases hk
      · exact .inl ⟨_, PassKind.apply_of_build hk⟩

/-! ### Stages -/

theorem runPass_indifferent (h : Indifferent pass.apply) : Indifferent (runPass pass) := by
  refine indifferent_get (fun c₁ c₂ hc => by rw [hc.findings]) fun c => ?_
  refine Agree.bindExcept h fun _ => ?_
  exact indifferent_get (fun c₁ c₂ hc => by rw [hc.findings]) fun _ => say_indifferent _ _

theorem runPasses_indifferent (h : ∀ pass ∈ passes, Indifferent pass.apply) :
    Indifferent (runPasses passes) := by
  induction passes with
  | nil => exact Agree.pure _
  | cons pass rest ih =>
    have hpass := runPass_indifferent (h pass List.mem_cons_self)
    have hrest := ih fun q hq => h q (List.mem_cons_of_mem _ hq)
    exact Agree.bindExcept hpass fun _ => hrest

/-- Runs that give the same, whatever has been heard before. -/
def SameResult (x y : RunM α) : Prop := Agree (fun _ _ => True) x.run y.run

theorem stageResult_eq {r₁ r₂ : Except PassError Unit × Context} (hr : r₁.1 = r₂.1)
    (hc : r₁.2.SameWork r₂.2) : stageResult r₁ = stageResult r₂ := by
  obtain ⟨e₁, c₁⟩ := r₁
  obtain ⟨e₂, c₂⟩ := r₂
  obtain rfl : e₁ = e₂ := hr
  cases e₁ with
  | error e => rfl
  | ok u =>
    have hp : c₁.program = c₂.program := hc.program
    have hf : c₁.findings = c₂.findings := hc.findings
    rw [stageResult, stageResult, hp, hf]

theorem runStage_sameResult (h : ∀ pass ∈ passes, Indifferent pass.apply) {c₁ c₂ : Context}
    (hc : c₁.SameWork c₂) : SameResult (runStage passes c₁) (runStage passes c₂) := by
  intro m₁ m₂ _
  have hpasses := runPasses_indifferent h { c₁ with messages := m₁ } { c₂ with messages := m₂ }
    ⟨hc.program, hc.hash, hc.findings⟩
  exact ⟨stageResult_eq hpasses.1 hpasses.2, trivial⟩

/-! ### Runs -/

/-- Configurations that ask for the same work. They may differ in who listens and in what is done to
the printed code. -/
structure Config.SameWork (c₁ c₂ : Config) : Prop where
  version : c₁.version = c₂.version
  passes : c₁.passes = c₂.passes
  rename : c₁.rename = c₂.rename
  sourceType : c₁.sourceType = c₂.sourceType
  loose : c₁.loose = c₂.loose
  typescript : c₁.typescript = c₂.typescript

/-- Configurations that ask for the same formatting. -/
structure Config.SameFormatting (c₁ c₂ : Config) : Prop where
  format : c₁.format = c₂.format
  formatter : c₁.formatter = c₂.formatter
  unwrapChains : c₁.unwrapChains = c₂.unwrapChains

theorem Config.SameWork.parseSettings (h : c₁.SameWork c₂) :
    c₁.parseSettings = c₂.parseSettings := by
  unfold Config.parseSettings
  rw [h.version, h.sourceType, h.loose, h.typescript]

/-- The code that a run gives for printed code: formatted if it is to be and can be. -/
def Config.finished (c : Config) (grammar : Grammar) (code : String) : String :=
  if c.format then (c.formatter (c.formatSettings grammar) code).toOption.getD code else code

theorem Config.finished_sameFormatting (h : c₁.SameWork c₂) (hf : c₁.SameFormatting c₂)
    (grammar : Grammar) (code : String) : c₁.finished grammar code = c₂.finished grammar code := by
  unfold finished formatSettings
  rw [hf.format, hf.formatter, hf.unwrapChains, h.parseSettings]

theorem Config.finished_unformatted (h : c.format = false) (grammar : Grammar) (code : String) :
    c.finished grammar code = code := by
  unfold finished
  rw [h]
  rfl

theorem Config.finished_of_failure {grammar : Grammar} {code : String} {e : FormatError}
    (h : c.formatter (c.formatSettings grammar) code = .error e) :
    c.finished grammar code = code := by
  unfold finished
  rw [h]
  exact ite_self code

namespace Deobfuscator

theorem ofConfig_ok (h : ofConfig c = .ok d) :
    d.config = c ∧ c.resolvePasses = .ok d.passes ∧
      ∃ pass, PassKind.rename.build .null = .ok pass ∧ d.renamePasses = [pass] := by
  unfold ofConfig at h
  cases hp : c.resolvePasses with
  | error e => simp [hp, bind, Except.bind] at h
  | ok passes =>
    cases hr : PassKind.rename.build .null with
    | error e => simp [hp, hr, bind, Except.bind] at h
    | ok pass =>
      simp only [hp, hr, bind, Except.bind, pure, Except.pure, Except.ok.injEq] at h
      subst h
      exact ⟨rfl, rfl, pass, rfl, rfl⟩

theorem ofConfig_sameWork (h : c₁.SameWork c₂) :
    ofConfig c₂ = (ofConfig c₁).map fun d => { d with config := c₂ } := by
  have hp : c₂.resolvePasses = c₁.resolvePasses := by
    unfold Config.resolvePasses
    rw [h.passes]
  unfold ofConfig
  rw [hp]
  cases c₁.resolvePasses with
  | error e => rfl
  | ok passes =>
    cases PassKind.rename.build .null with
    | error e => rfl
    | ok pass => rfl

/-- Resolved configurations with the same passes, of which none cares who listens, that ask for the
same work. -/
structure SameWork (d₁ d₂ : Deobfuscator) : Prop where
  config : d₁.config.SameWork d₂.config
  passes : d₁.passes = d₂.passes
  renamePasses : d₁.renamePasses = d₂.renamePasses
  indifferent : ∀ pass ∈ d₁.passes, Indifferent pass.apply
  renameIndifferent : ∀ pass ∈ d₁.renamePasses, Indifferent pass.apply

variable {d₁ d₂ : Deobfuscator}

theorem renameStage_sameResult (h : d₁.SameWork d₂) (p : Program) (grammar : Grammar) :
    SameResult (d₁.renameStage p grammar) (d₂.renameStage p grammar) := by
  unfold renameStage
  rw [h.config.version, h.config.parseSettings, h.renamePasses]
  simp only
  split
  · exact Agree.pure _
  · refine runStage_sameResult (h.renamePasses ▸ h.renameIndifferent) ?_
    exact ⟨rfl, rfl, rfl⟩

theorem process_sameResult (h : d₁.SameWork d₂) (p : Program) (grammar : Grammar) :
    SameResult (d₁.process p grammar) (d₂.process p grammar) := by
  have main : SameResult (runStage d₁.passes (d₁.context p)) (runStage d₂.passes (d₂.context p)) :=
    h.passes ▸ runStage_sameResult h.indifferent ⟨rfl, rfl, rfl⟩
  refine Agree.bindExcept main fun done => ?_
  rw [h.config.rename]
  split
  · exact Agree.bindExcept (renameStage_sameResult h done.output grammar) fun _ => Agree.pure _
  · exact Agree.pure _

theorem finish_result (d : Deobfuscator) (grammar : Grammar) (code : String) (m : List Message) :
    ((d.finish grammar code).run.run m).1 = .ok (d.config.finished grammar code) := by
  unfold finish Config.finished
  split
  · cases d.config.formatter (d.config.formatSettings grammar) code with
    | ok formatted => rfl
    | error e => rfl
  · rfl

/-- What a run on a text gives: the stages on what was parsed, printed and finished. -/
theorem runSource_result (d : Deobfuscator) (source : String) (m : List Message) :
    ((d.runSource source).run.run m).1 =
      match parse source d.config.parseSettings with
      | .error e => .error (.parse e)
      | .ok parsed =>
        ((d.process parsed.program parsed.grammar).run.run m).1.map fun done =>
          { output := d.config.finished parsed.grammar (generate done.output d.config.version)
            findings := done.findings } := by
  unfold runSource
  cases parse source d.config.parseSettings with
  | error e => rfl
  | ok parsed =>
    simp only [run_bindExcept]
    rcases (d.process parsed.program parsed.grammar).run.run m with ⟨e | done, m'⟩
    · rfl
    · have hf := d.finish_result parsed.grammar (generate done.output d.config.version) m'
      simp only
      rcases hr : (d.finish parsed.grammar (generate done.output d.config.version)).run.run m' with
        ⟨e | output, m''⟩
      · rw [hr] at hf
        cases hf
      · rw [hr] at hf
        cases hf
        rfl

end Deobfuscator

/-! ### Configured runs -/

/-- Passes that were resolved for one configuration serve another that asks for the same work. -/
theorem Deobfuscator.sameWork_withConfig (hd : ofConfig d.config = .ok d) (h : d.config.SameWork c)
    (hgiven : ∀ pass, .given pass ∈ d.config.passes → Indifferent pass.apply) :
    d.SameWork { d with config := c } := by
  obtain ⟨-, hpasses, rename, hrename, hlast⟩ := ofConfig_ok hd
  refine ⟨h, rfl, rfl, fun pass hp => ?_, fun pass hp => ?_⟩
  · rcases Config.mem_resolvePasses hpasses hp with ⟨k, o, hk⟩ | hg
    · rw [hk]
      exact k.step_indifferent o
    · exact hgiven pass hg
  · rw [hlast, List.mem_singleton] at hp
    obtain ⟨o, ho⟩ := PassKind.apply_of_build hrename
    rw [hp, ho]
    exact PassKind.rename.step_indifferent o

theorem deobfuscate_result (c : Config) (source : String) :
    (deobfuscate c source).1 =
      match Deobfuscator.ofConfig c with
      | .error e => .error (.config e)
      | .ok d => ((d.runSource source).run.run []).1 := by
  unfold deobfuscate
  cases Deobfuscator.ofConfig c with
  | error e => rfl
  | ok d => rfl

/-- Two runs that do the same work both fail alike, or print and find the same. -/
theorem deobfuscate_cases (h : c₁.SameWork c₂)
    (hgiven : ∀ pass, .given pass ∈ c₁.passes → Indifferent pass.apply) (source : String) :
    (∃ e, (deobfuscate c₁ source).1 = .error e ∧ (deobfuscate c₂ source).1 = .error e) ∨
    ∃ parsed code found, parse source c₁.parseSettings = .ok parsed ∧
      (deobfuscate c₁ source).1 = .ok ⟨c₁.finished parsed.grammar code, found⟩ ∧
      (deobfuscate c₂ source).1 = .ok ⟨c₂.finished parsed.grammar code, found⟩ := by
  rw [deobfuscate_result, deobfuscate_result, Deobfuscator.ofConfig_sameWork h]
  cases hd : Deobfuscator.ofConfig c₁ with
  | error e => exact .inl ⟨_, rfl, rfl⟩
  | ok d₁ =>
    obtain ⟨rfl, -⟩ := Deobfuscator.ofConfig_ok hd
    have hwork := Deobfuscator.sameWork_withConfig hd h hgiven
    simp only [Except.map, Deobfuscator.runSource_result, h.parseSettings]
    cases parse source c₂.parseSettings with
    | error e => exact .inl ⟨_, rfl, rfl⟩
    | ok parsed =>
      have hprocess := (Deobfuscator.process_sameResult hwork parsed.program parsed.grammar
        [] [] trivial).1
      simp only [hprocess, h.version]
      cases ((Deobfuscator.process { d₁ with config := c₂ } parsed.program
        parsed.grammar).run.run []).1 with
      | error e => exact .inl ⟨_, rfl, rfl⟩
      | ok done => exact .inr ⟨parsed, _, done.findings, rfl, rfl, rfl⟩

/-- Who listens and how the output is formatted has no bearing on whether a run succeeds, on its
error and on what it finds; who listens has none on the output either; and a formatter that fails
leaves the output that a run without formatting gives. This is for passes of the
library, and for passes of the caller that do not depend on who listens (`Indifferent`): one that
looks at the context could do anything. -/
theorem deobfuscate_ignores_presentation {c₁ c₂ : Config} (h : c₁.SameWork c₂)
    (hgiven : ∀ pass, .given pass ∈ c₁.passes → Indifferent pass.apply) (source : String) :
    (deobfuscate c₁ source).1.map (·.findings) = (deobfuscate c₂ source).1.map (·.findings) ∧
    (c₁.SameFormatting c₂ → (deobfuscate c₁ source).1 = (deobfuscate c₂ source).1) ∧
    (c₁.format = true → c₂.format = false → ∀ parsed done e,
      parse source c₁.parseSettings = .ok parsed → (deobfuscate c₂ source).1 = .ok done →
      c₁.formatter (c₁.formatSettings parsed.grammar) done.output = .error e →
      (deobfuscate c₁ source).1 = .ok done) := by
  rcases deobfuscate_cases h hgiven source with ⟨e, h₁, h₂⟩ | ⟨parsed, code, found, hp, h₁, h₂⟩
  · rw [h₁, h₂]
    refine ⟨rfl, fun _ => rfl, fun _ _ _ _ _ _ hok => ?_⟩
    cases hok
  · rw [h₁, h₂]
    refine ⟨rfl, fun hf => ?_, fun hon hoff parsed' done e hp' hok hfail => ?_⟩
    · rw [Config.finished_sameFormatting h hf]
    · rw [hp] at hp'
      cases hp'
      rw [Config.finished_unformatted hoff] at hok
      cases hok
      rw [Config.finished_of_failure hfail]

/-- A run with a pass that only says something, and with a formatter that always fails. -/
def unformattable : Config where
  passes := [.given { name := "Greeting", options := .null, apply := say .info "hello" }]
  formatter := fun _ _ => .error (.unprintable "no room")

def silent : Config := { unformattable with format := false, quiet := true }

theorem deobfuscate_unformattable :
    unformattable.SameWork silent ∧
    (∀ pass, .given pass ∈ unformattable.passes → Indifferent pass.apply) ∧
    (deobfuscate silent "f( )").1 = .ok ⟨"f();\n", []⟩ ∧
    (deobfuscate unformattable "f( )").1 = .ok ⟨"f();\n", []⟩ := by
  have hwork : unformattable.SameWork silent := ⟨rfl, rfl, rfl, rfl, rfl, rfl⟩
  have hgiven : ∀ pass, .given pass ∈ unformattable.passes → Indifferent pass.apply := by
    intro pass hp
    cases List.mem_singleton.1 hp
    exact say_indifferent .info "hello"
  have hsilent : (deobfuscate silent "f( )").1 = .ok ⟨"f();\n", []⟩ := rfl
  obtain ⟨-, -, hfailed⟩ := deobfuscate_ignores_presentation hwork hgiven "f( )"
  exact ⟨hwork, hgiven, hsilent, hfailed rfl rfl _ _ _ rfl hsilent rfl⟩

end Untangle
