import DesignPages.CommandLine.Run
import DesignPages.Proofs.CommandLine.Action
import DesignPages.Proofs.Frame.Labels
import DesignPages.Proofs.Link.Query
import DesignPages.Proofs.Staging

/-!
# Inputs before effects

A command reads and converts all that it is given before it prints or changes anything.  So a run that
fails because of its configuration, its input or its link has done nothing, and what can still fail
after that are the changes of a page alone.
-/

namespace DesignPages
namespace CommandLine

/-! ## What a command is given -/

/-- Whether a failure comes from what a command is given, and not from what it writes. -/
def Failure.isOfInputs : Failure → Bool
  | notMade _ | notWritten _ => false
  | _ => true

theorem Step.isOfInputs_failure (step : Step) : step.failure.isOfInputs = false := by
  cases step <;> rfl

variable {σ α β : Type}

/-- The text that the path of an input stands for, if it can be read. -/
def World.input? (w : World σ) (place : σ) (path : String) : Option String :=
  if Path.isStandardInput path then w.standard place else w.file place path

/-- The options of a configuration, if its file can be read and holds some. -/
def World.config? (w : World σ) (place : σ) : Option String → Option Options
  | none => some .standard
  | some path => do
    let text ← w.file place path
    (Options.read text).toOption

/-- The configuration gives options, and the input can be read and has a text that fits. -/
def World.Provides (w : World σ) (place : σ) (a : Overrides) (input : String)
    (Fits : String → Prop) : Prop :=
  (∃ options, w.config? place a.config = some options) ∧
    ∃ text, w.input? place input = some text ∧ Fits text

/-- A command can do its work with what it is given: its files can be read, the configuration holds
options, the input holds an export or frames whose labels are all known, and the link has a key. -/
def Command.InputsFit (w : World σ) (place : σ) : Command → Prop
  | .compile input _ a | .analyze input a =>
    w.Provides place a input fun text => ∃ file, Export.File.read text = .ok file
  | .generate input _ a =>
    w.Provides place a input fun text =>
      ∃ labeled, LabeledFrame.readList text = .ok labeled ∧
        ∀ l ∈ labeled, ∃ c, Category.ofLabel? l.label = some c
  | .fileKey url => ∃ key, Link.fileKey url = .ok key

/-- Whether a command writes files. -/
def Command.writesFiles : Command → Bool
  | .compile _ output _ | .generate _ output _ => !output.json
  | .analyze _ _ | .fileKey _ => false

/-! ## What remains of a command -/

/-- In a session an action comes to the same as what remains of it or, if nothing remains, it fails
because of an input.  Up to there the session is what it was. -/
def Leads (w : World σ) (s : Session σ) (m : Action α) : Option (Action α) → Prop
  | some rest => m.run w s = rest.run w s
  | none => ∃ e : Failure, e.isOfInputs = true ∧ m.run w s = (.error e, s)

section Leads

variable {w : World σ} {s : Session σ} {m : Action α}

theorem leads_self (m : Action α) : Leads w s m (some m) := rfl

theorem leads_fail {e : Failure} (he : e.isOfInputs = true) :
    Leads w s (.fail e : Action α) none :=
  ⟨e, he, rfl⟩

theorem leads_of_run_eq {m' : Action α} {x : Option (Action α)} (h : m.run w s = m'.run w s)
    (hm : Leads w s m' x) : Leads w s m x := by
  cases x with
  | none =>
      obtain ⟨e, he, hrun⟩ := hm
      exact ⟨e, he, h.trans hrun⟩
  | some rest => exact h.trans hm

theorem Leads.bind {x : Option α} (h : Leads w s m (x.map .done)) {f : α → Action β}
    {y : α → Option (Action β)} (hf : ∀ a, Leads w s (f a) (y a)) :
    Leads w s (m >>= f) (x.bind y) := by
  cases x with
  | none =>
      obtain ⟨e, he, hrun⟩ := h
      exact ⟨e, he, Action.run_bind_of_error hrun f⟩
  | some a => exact leads_of_run_eq (Action.run_bind_of_ok h f) (hf a)

theorem leads_ofExcept {ε : Type} (x : Except ε α) {f : ε → Failure}
    (hf : ∀ e, (f e).isOfInputs = true) :
    Leads w s (.ofExcept (x.mapError f)) (x.toOption.map .done) := by
  cases x with
  | error e => exact ⟨f e, hf e, Action.run_ofExcept _⟩
  | ok a => exact leads_self _

end Leads

section Reading

variable (w : World σ) (s : Session σ)

theorem leads_readInput (path : String) :
    Leads w s (readInput path) ((w.input? s.place path).map .done) := by
  unfold readInput World.input?
  split_ifs
  · apply leads_of_run_eq (Action.run_bind_of_ok Action.run_readStandard _)
    cases w.standard s.place with
    | none => exact leads_fail rfl
    | some text => exact leads_self _
  · apply leads_of_run_eq (Action.run_bind_of_ok (Action.run_readFile path) _)
    cases w.file s.place path with
    | none => exact leads_fail rfl
    | some text => exact leads_self _

theorem leads_readConfig (config : Option String) :
    Leads w s (readConfig config) ((w.config? s.place config).map .done) := by
  cases config with
  | none => exact leads_self _
  | some path =>
      apply leads_of_run_eq (Action.run_bind_of_ok (Action.run_readFile path) _)
      rw [World.config?]
      cases w.file s.place path with
      | none => exact leads_fail rfl
      | some text => exact leads_ofExcept (Options.read text) fun _ => rfl

theorem leads_loadOptions (a : Overrides) :
    Leads w s (loadOptions a) (((w.config? s.place a.config).map a.apply).map .done) := by
  have h := (leads_readConfig w s a.config).bind fun o => leads_self (.done (a.apply o))
  rwa [Option.map_map, Option.map_eq_bind]

/-- What the commands with an input file have in common: the options are loaded, the input is read and
converted, and then the rest is done. -/
def prepareThen {ε : Type} (a : Overrides) (input : String)
    (convert : Options → String → Except ε α) (f : ε → Failure) (rest : Options → α → Action Unit) :
    Action Unit := do
  let options ← loadOptions a
  let text ← readInput input
  let x ← .ofExcept ((convert options text).mapError f)
  rest options x

theorem leads_prepareThen {ε : Type} (a : Overrides) (input : String)
    (convert : Options → String → Except ε α) {f : ε → Failure} (hf : ∀ e, (f e).isOfInputs = true)
    (rest : Options → α → Action Unit) :
    Leads w s (prepareThen a input convert f rest)
      (((w.config? s.place a.config).map a.apply).bind fun options =>
        (w.input? s.place input).bind fun text =>
          (convert options text).toOption.bind fun x => some (rest options x)) :=
  (leads_loadOptions w s a).bind fun options =>
    (leads_readInput w s input).bind fun text =>
      (leads_ofExcept (convert options text) hf).bind fun x => leads_self (rest options x)

theorem run_prepareThen_of_ok {ε : Type} {a : Overrides} {input text : String}
    (convert : Options → String → Except ε α) {f : ε → Failure} (hf : ∀ e, (f e).isOfInputs = true)
    {options : Options} {x : α} (hconfig : w.config? s.place a.config = some options)
    (hinput : w.input? s.place input = some text)
    (hconvert : convert (a.apply options) text = .ok x) (rest : Options → α → Action Unit) :
    (prepareThen a input convert f rest).run w s = (rest (a.apply options) x).run w s := by
  have h := leads_prepareThen w s a input convert hf rest
  rwa [hconfig, hinput, Option.map_some, Option.bind_some, Option.bind_some, hconvert] at h

theorem run_prepareThen_cases {ε : Type} (a : Overrides) (input : String)
    (convert : Options → String → Except ε α) {f : ε → Failure} (hf : ∀ e, (f e).isOfInputs = true)
    {Fits : String → Prop} (hfits : ∀ options text, (∃ x, convert options text = .ok x) ↔ Fits text)
    {rest : Options → α → Action Unit} {Rest : Action Unit → Prop}
    (hrest : ∀ options x, Rest (rest options x)) :
    (w.Provides s.place a input Fits ∧
        ∃ r, Rest r ∧ (prepareThen a input convert f rest).run w s = r.run w s) ∨
      (¬w.Provides s.place a input Fits ∧
        ∃ e, Failure.isOfInputs e = true ∧
          (prepareThen a input convert f rest).run w s = (.error e, s)) := by
  have h := leads_prepareThen w s a input convert hf rest
  -- The first of the three that is missing decides about the failure.
  cases hconfig : w.config? s.place a.config with
  | none =>
      rw [hconfig] at h
      exact .inr ⟨by simp [World.Provides, hconfig], h⟩
  | some options =>
      cases hinput : w.input? s.place input with
      | none =>
          rw [hconfig, hinput] at h
          exact .inr ⟨by simp [World.Provides, hinput], h⟩
      | some text =>
          rw [hconfig, hinput, Option.map_some, Option.bind_some, Option.bind_some] at h
          cases hconvert : convert (a.apply options) text with
          | error e =>
              rw [hconvert] at h
              have hnot : ¬Fits text := by
                rw [← hfits (a.apply options) text, hconvert]
                simp
              exact .inr ⟨by simp [World.Provides, hinput, hnot], h⟩
          | ok x =>
              have htext : Fits text := (hfits _ text).mp ⟨x, hconvert⟩
              exact .inl ⟨⟨⟨options, hconfig⟩, text, hinput, htext⟩, _, hrest _ x,
                run_prepareThen_of_ok w s convert hf hconfig hinput hconvert rest⟩

end Reading

/-! ## What commands do with inputs that fit -/

/-- What remains of a command whose inputs fit. -/
inductive Remains : Command → Action Unit → Prop
  | compile {input output a} (options : Options) (c : Compilation) :
      Remains (.compile input output a) (deliver output options c)
  | analyze {input a} (text : String) : Remains (.analyze input a) (.print text)
  | generate {input output a} (options : Options) (c : Compilation) :
      Remains (.generate input output a) (deliver output options c)
  | fileKey {url key preview} (hkey : Link.fileKey url = .ok key)
      (hpreview : Link.embed url = .ok preview) :
      Remains (.fileKey url) (do .print (key ++ "\n"); .print (preview ++ "\n"))

section Commands

variable (w : World σ) (s : Session σ)

/-- A command settles its inputs first.  If they fit, only the rest remains to be done, and otherwise
it has failed and done nothing. -/
theorem execute_cases (c : Command) :
    (c.InputsFit w s.place ∧ ∃ rest, Remains c rest ∧ (execute c).run w s = rest.run w s) ∨
      (¬c.InputsFit w s.place ∧
        ∃ e, Failure.isOfInputs e = true ∧ (execute c).run w s = (.error e, s)) := by
  cases c with
  | compile input output a =>
      refine run_prepareThen_cases w s a input Compilation.ofExport ?_
        Compilation.exists_ofExport_iff .compile
      exact fun _ => rfl
  | analyze input a =>
      refine run_prepareThen_cases w s a input (fun _ => Export.File.read) ?_ (fun _ _ => Iff.rfl)
        fun options file => .analyze _
      exact fun _ => rfl
  | generate input output a =>
      refine run_prepareThen_cases w s a input Compilation.ofFrames ?_
        Compilation.exists_ofFrames_iff .generate
      exact fun _ => rfl
  | fileKey url =>
      cases hkey : Link.fileKey url with
      | error e =>
          have hfail : (Action.ofExcept ((Link.fileKey url).mapError .link)).run w s =
              (.error (.link e), s) := by
            rw [hkey]
            exact Action.run_ofExcept _
          exact .inr ⟨by simp [Command.InputsFit, hkey], .link e, rfl,
            Action.run_bind_of_error hfail _⟩
      | ok key =>
          -- The key is printed before the preview is made, which cannot fail any more.
          obtain ⟨preview, hpreview⟩ := (Link.exists_embed_iff url).mpr ⟨key, hkey⟩
          refine .inl ⟨⟨key, hkey⟩, _, .fileKey hkey hpreview, ?_⟩
          simp [execute, hkey, hpreview, Except.mapError, Action.run_bind]

theorem run_deliver (output : Destination) (options : Options) (c : Compilation) :
    ∃ result t, (deliver output options c).run w s = (result, t) ∧
      (∀ e, result = .error e → e.isOfInputs = false) ∧ (output.json = true → t.place = s.place) := by
  unfold deliver
  split_ifs with hjson
  · exact ⟨_, _, rfl, fun e he => by simp at he, fun _ => rfl⟩
  · obtain ⟨result, place, hrun, hresult⟩ :=
      Action.run_changeAll w (pageSteps output.out options.page.componentsDir c.page) s
    cases result with
    | error e =>
        refine ⟨.error e, _, Action.run_bind_of_error hrun _, fun e' he' => ?_, by simp [hjson]⟩
        obtain ⟨step, -, hstep⟩ := hresult e rfl
        rw [← Except.error.inj he', hstep, Step.isOfInputs_failure]
    | ok u =>
        exact ⟨_, _, (Action.run_bind_of_ok hrun _).trans (Action.run_report _),
          fun e he => by simp at he, by simp [hjson]⟩

/-- What remains of a command fails only at a change of the files, and only if the command writes
files it changes any. -/
theorem Remains.run_cases {c : Command} {rest : Action Unit} (h : Remains c rest) :
    ∃ result t, rest.run w s = (result, t) ∧ (∀ e, result = .error e → e.isOfInputs = false) ∧
      (c.writesFiles = false → t.place = s.place) := by
  cases h with
  | compile options c => simpa [Command.writesFiles] using run_deliver w s _ options c
  | analyze text => exact ⟨_, _, Action.run_print text, fun e he => by simp at he, fun _ => rfl⟩
  | generate options c => simpa [Command.writesFiles] using run_deliver w s _ options c
  | fileKey hkey hpreview => exact ⟨_, _, rfl, fun e he => by simp at he, fun _ => rfl⟩

theorem Remains.run_fileKey {url : String} {rest : Action Unit} (h : Remains (.fileKey url) rest) :
    ∃ key preview, Link.fileKey url = .ok key ∧ Link.embed url = .ok preview ∧
      rest.run w s =
        (.ok (), { s with output := s.output ++ (key ++ "\n" ++ preview ++ "\n") }) := by
  cases h with
  | @fileKey _ key preview hkey hpreview =>
      refine ⟨key, preview, hkey, hpreview, ?_⟩
      rw [Action.run_bind_of_ok (Action.run_print _), Action.run_print]
      simp only [String.append_assoc]

end Commands

/-! ## How a run ends -/

theorem Session.conclude_failure_eq_some_iff {t : Session σ} {result : Except Failure Unit}
    {e : Failure} : (t.conclude result).1.failure = some e ↔ result = .error e := by
  cases result <;> simp [Session.conclude]

theorem Session.conclude_output (t : Session σ) (result : Except Failure Unit) :
    (t.conclude result).1.output = t.output := by
  cases result <;> rfl

theorem Session.conclude_place (t : Session σ) (result : Except Failure Unit) :
    (t.conclude result).2 = t.place := by
  cases result <;> rfl

/-- Whatever a command line that asks for a command finds in its world, the run fails because of an
input exactly if the inputs do not fit the command, and then it has printed nothing and left the place
as it was.  A command that does not write files leaves the place as it was in any case.  The key and
the preview of a link are both printed, or none of them. -/
theorem runIn_settles_inputs_first (w : World σ) (place : σ) {envTitle : Option String}
    {arguments : List String} {c : Command} (h : read envTitle arguments = .ok (.run c)) :
    ∃ report after, runIn w place envTitle arguments = (report, after) ∧
      ((∃ e, report.failure = some e ∧ e.isOfInputs = true) ↔ ¬c.InputsFit w place) ∧
      (¬c.InputsFit w place → report.output = "" ∧ after = place) ∧
      (c.writesFiles = false → after = place) ∧
      ∀ url, c = .fileKey url →
        (report.output = "" ∧ ∀ key, Link.fileKey url ≠ .ok key) ∨
          ∃ key preview, Link.fileKey url = .ok key ∧ Link.embed url = .ok preview ∧
            report.output = key ++ "\n" ++ preview ++ "\n" := by
  have hrun : runIn w place envTitle arguments = runCommand w place c := by
    simp only [runIn, h]
  rw [hrun, runCommand]
  rcases execute_cases w (.start place) c with ⟨hfit, rest, hrest, hexecute⟩ | ⟨hfit, e, he, hexecute⟩
  · obtain ⟨result, t, ht, hfailure, hplace⟩ := hrest.run_cases w (.start place)
    rw [hexecute, ht]
    refine ⟨_, _, rfl, iff_of_false ?_ (not_not_intro hfit), fun hnot => absurd hfit hnot,
      fun hwrites => (t.conclude_place result).trans (hplace hwrites), ?_⟩
    · rintro ⟨e, he, hof⟩
      have hnot := hfailure e (Session.conclude_failure_eq_some_iff.mp he)
      rw [hof] at hnot
      contradiction
    · rintro url rfl
      obtain ⟨key, preview, hkey, hpreview, hboth⟩ := hrest.run_fileKey w (.start place)
      have houtput : t.output = key ++ "\n" ++ preview ++ "\n" := by
        rw [ht] at hboth
        rw [(Prod.mk.inj hboth).2, Session.start, String.empty_append]
      exact .inr ⟨key, preview, hkey, hpreview, (t.conclude_output result).trans houtput⟩
  · rw [hexecute]
    refine ⟨_, _, rfl, iff_of_true ⟨e, rfl, he⟩ hfit, fun _ => ⟨rfl, rfl⟩, fun _ => rfl, ?_⟩
    rintro url rfl
    exact .inl ⟨rfl, fun key hkey => hfit ⟨key, hkey⟩⟩

/-- Frames of which one has a label that is not known. -/
def carouselFrames : String :=
  "[\x7b\"id\":\"1:1\",\"name\":\"Slides\",\"type\":\"Carousel\"\x7d]"

/-- An unknown label on the standard input stops the run before anything is written. -/
theorem runIn_settles_inputs_carousel :
    ∃ report, runIn (folderWorld carouselFrames) (Folder.empty ["home"]) none
        ["generate", "-", "--out", "site"] = (report, Folder.empty ["home"]) ∧
      report.failure = some (.notGenerated "-") ∧ report.output = "" := by
  have hread : read none ["generate", "-", "--out", "site"] =
      .ok (.run (.generate "-" ⟨"site", false⟩ ⟨none, none, false⟩)) := by
    decide +kernel
  obtain ⟨report, after, hrun, hfails, hnothing, -, -⟩ :=
    runIn_settles_inputs_first (folderWorld carouselFrames) (Folder.empty ["home"]) hread
  have hfailure : report.failure = some (.notGenerated "-") := by
    rw [← congrArg (fun r => r.1.failure) hrun]
    decide +kernel
  obtain ⟨houtput, rfl⟩ := hnothing (hfails.mp ⟨_, hfailure, rfl⟩)
  exact ⟨report, hrun, hfailure, houtput⟩

/-! ## Analysis and generation apart -/

/-- The command that generates from what the command that analyzes has printed does the same as the
command that compiles, if the frames are printed faithfully. -/
theorem run_generate_of_analyze {w : World σ} {s t : Session σ} {a : Overrides} {options : Options}
    {input path text : String} {file : Export.File}
    (hs : w.config? s.place a.config = some options)
    (ht : w.config? t.place a.config = some options)
    (hinput : w.input? s.place input = some text) (hfile : Export.File.read text = .ok file)
    (hpath : w.input? t.place path =
      some (runCommand w s.place (.analyze input a)).1.output)
    (hprints : Compilation.PrintsFaithfully (Design.analyze (a.apply options) file.document))
    (output : Destination) :
    ∃ c, (execute (.compile input output a)).run w s =
        (deliver output (a.apply options) c).run w s ∧
      (execute (.generate path output a)).run w t =
        (deliver output (a.apply options) c).run w t := by
  have hanalysis : (runCommand w s.place (.analyze input a)).1.output =
      AnalyzedFrame.printed (Design.analyze (a.apply options) file.document) := by
    have hrun : (execute (.analyze input a)).run w (.start s.place) = _ :=
      run_prepareThen_of_ok w (.start s.place) (fun _ => Export.File.read) (fun _ => rfl) hs hinput
        hfile fun options file => .print (AnalyzedFrame.printed (Design.analyze options file.document))
    rw [runCommand, hrun, Action.run_print]
    exact String.empty_append
  have hsecond := (Compilation.ofFrames_printed_eq_iff hfile).mpr hprints
  rw [← hanalysis] at hsecond
  obtain ⟨c, hc⟩ := (Compilation.exists_ofExport_iff (a.apply options) text).mpr ⟨file, hfile⟩
  refine ⟨c, ?_, ?_⟩
  · exact run_prepareThen_of_ok w s _ (fun _ => rfl) hs hinput hc (deliver output)
  · exact run_prepareThen_of_ok w t _ (fun _ => rfl) ht hpath (hsecond.trans hc) (deliver output)

end CommandLine
end DesignPages
