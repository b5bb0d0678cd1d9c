import Propositional.Proofs.CommandLine.Response

/-!
# Formulas from a file and from the arguments

Behind the same options it makes no difference whether formulas stand in a file or among the arguments.
The options themselves may be anything, also such that are not understood.

* `Flag` — the options that name no file, with their arguments;
* `Progress.Fresh` — only such options have been read so far;
  `Passes` — words behind which there is a stop or again such a progress;
* `Agree` — argument lists that may replace each other behind such options (`Agree.flags`);
* `agree_file` — a file with formulas may be replaced by the formulas;
* `respond_file_eq_arguments` — so the responses are the same.
-/

namespace Propositional.CommandLine

/-! ### Options that name no file -/

/-- An option that names no file.  A bound is given in the next argument or behind an equals sign. -/
inductive Flag where
  | ones
  | binary
  | strict
  | maxVars (value : String)
  | maxVarsAttached (value : String)

/-- The arguments of an option. -/
def Flag.arguments : Flag → List String
  | ones => ["--ones"]
  | binary => ["--binary"]
  | strict => ["--strict"]
  | maxVars value => ["--max-vars", value]
  | maxVarsAttached value => ["--max-vars=" ++ value]

/-- No formula has been taken, and no file has been named. -/
structure Progress.Fresh (p : Progress) : Prop where
  group : p.group = .waiting
  stray : p.stray = []
  formulas : p.settings.formulas = []
  file : p.settings.file = ""

theorem Progress.fresh_start : ({} : Progress).Fresh := ⟨rfl, rfl, rfl, rfl⟩

variable {p : Progress}

theorem Progress.Fresh.isOpen (h : p.Fresh) : p.group ≠ .closed := by
  rw [h.group]
  decide

theorem Progress.Fresh.endGroup (h : p.Fresh) : p.endGroup = p := by
  rw [Progress.endGroup, if_neg (by rw [h.group]; decide)]

theorem Progress.Fresh.with_settings (h : p.Fresh) {settings : Settings}
    (hformulas : settings.formulas = p.settings.formulas) (hfile : settings.file = p.settings.file) :
    { p with settings := settings }.Fresh :=
  ⟨h.group, h.stray, hformulas.trans h.formulas, hfile.trans h.file⟩

/-- An option that names no file stops, or formulas and file are still to come. -/
theorem Progress.Fresh.set (h : p.Fresh) {use : Use} (hfile : use.key ≠ .file) :
    (∃ stop, p.set use = .error stop) ∨ ∃ q : Progress, p.set use = .ok q ∧ q.Fresh := by
  obtain ⟨key, value⟩ := use
  cases key with
  | help => exact .inl ⟨_, rfl⟩
  | file => exact absurd rfl hfile
  | ones => exact .inr ⟨_, rfl, h.with_settings rfl rfl⟩
  | binary => exact .inr ⟨_, rfl, h.with_settings rfl rfl⟩
  | strict => exact .inr ⟨_, rfl, h.with_settings rfl rfl⟩
  | maxVars =>
    simp only [Progress.set]
    split
    · exact .inr ⟨_, rfl, h.with_settings rfl rfl⟩
    · split
      · exact .inr ⟨_, rfl, h.with_settings rfl rfl⟩
      · exact .inl ⟨_, rfl⟩

/-! ### Words of options -/

theorem Progress.setAll_singleton (p : Progress) (use : Use) : p.setAll [use] = p.set use := by
  simp [Progress.setAll]

/-- Behind these words, whatever follows, there is a stop, or formulas and file are still to come. -/
def Passes (words : List Word) : Prop :=
  ∀ p : Progress, p.Fresh → (∃ stop, ∀ later, p.takeWords (words ++ later) = .error stop) ∨
    ∃ q : Progress, q.Fresh ∧ ∀ later, p.takeWords (words ++ later) = q.takeWords later

/-- Words pass if they come to setting one option that names no file. -/
theorem passes_of_set {words : List Word} (use : Use) (hfile : use.key ≠ .file)
    (h : ∀ p : Progress, p.Fresh → ∀ later,
      p.takeWords (words ++ later) = p.set use >>= fun q => q.takeWords later) :
    Passes words := by
  intro p hp
  rcases hp.set hfile with ⟨stop, hstop⟩ | ⟨q, hset, hq⟩
  · exact .inl ⟨stop, fun later => by rw [h p hp, hstop]; rfl⟩
  · exact .inr ⟨q, hq, fun later => by rw [h p hp, hset]; rfl⟩

/-- An option that needs no value from the next word. -/
theorem passes_option {key : OptionKey} {attached : Attached} {use : Use}
    (huses : attached.uses key = .ok [use]) (hawaits : use.awaits = false) (hfile : use.key ≠ .file) :
    Passes [.option key attached] := by
  refine passes_of_set use hfile fun p hp later => ?_
  have hfind : [use].find? Use.awaits = none := by simp [hawaits]
  rw [List.singleton_append, Progress.takeWords, huses]
  simp only [Except.mapError, bind, Except.bind, hfind, hp.endGroup, Progress.setAll_singleton]

/-- The option of the bound with the word behind it. -/
theorem passes_maxVars (word : Word) : Passes [.option .maxVars .nothing, word] := by
  have huses : Attached.uses .maxVars .nothing = .ok [⟨.maxVars, none⟩] := rfl
  cases word with
  | operand value =>
    refine passes_of_set ⟨.maxVars, some value⟩ OptionKey.noConfusion fun p hp later => ?_
    rw [List.cons_append, List.singleton_append, Progress.takeWords, huses]
    show (p.endGroup.setAll [⟨.maxVars, some value⟩] >>= fun q => q.takeWords later) = _
    rw [hp.endGroup, Progress.setAll_singleton]
  | separator => exact fun p _ => .inl ⟨_, fun later => by rw [List.cons_append, Progress.takeWords]; rfl⟩
  | option _ _ => exact fun p _ => .inl ⟨_, fun later => by rw [List.cons_append, Progress.takeWords]; rfl⟩
  | unknown _ => exact fun p _ => .inl ⟨_, fun later => by rw [List.cons_append, Progress.takeWords]; rfl⟩

theorem classifyAll_cons {text : String} {word : Word} (hne : text ≠ "--")
    (h : classify text = .ok word) (rest : List String) :
    classifyAll (text :: rest) = (classifyAll rest).map (word :: ·) := by
  rw [classifyAll, if_neg hne, h]
  cases classifyAll rest <;> rfl

theorem classifyAll_cons_error {text : String} {e : UsageError} (hne : text ≠ "--")
    (h : classify text = .error e) (rest : List String) :
    classifyAll (text :: rest) = .error e := by
  rw [classifyAll, if_neg hne, h]
  rfl

theorem classify_maxVarsAttached (value : String) :
    classify ("--max-vars=" ++ value) = .ok (.option .maxVars (.toLong value.toList)) := by
  rw [classify, String.toList_append]
  rfl

theorem maxVarsAttached_ne_separator (value : String) : "--max-vars=" ++ value ≠ "--" := by
  intro h
  have hlist := congrArg String.toList h
  rw [String.toList_append] at hlist
  cases hlist

/-! ### Arguments behind options -/

variable {files : Files} {rest rest' : List String}

/-- The response when the arguments have been read, or could not be. -/
def Files.responseTo (files : Files) : Except Stop Settings → Except Abort Response
  | .error stop => .ok stop.response
  | .ok s => s.respond (files.supplied s)

theorem respond_eq_responseTo (arguments : List String) :
    files.respond arguments = files.responseTo (readArguments arguments) := by
  rw [Files.respond]
  cases readArguments arguments <;> rfl

/-- Two argument lists have the same mistake in one of their words, or both consist of words, and the
response is the same when these are taken behind options that name no file. -/
inductive Agree (files : Files) (rest rest' : List String) : Prop
  | misread {e : UsageError} (h : classifyAll rest = .error e) (h' : classifyAll rest' = .error e)
  | read {words words' : List Word} (h : classifyAll rest = .ok words)
      (h' : classifyAll rest' = .ok words')
      (hsame : ∀ p : Progress, p.Fresh →
        files.responseTo (p.takeWords words) = files.responseTo (p.takeWords words'))

theorem Agree.respond_eq (h : Agree files rest rest') : files.respond rest = files.respond rest' := by
  rw [respond_eq_responseTo, respond_eq_responseTo, readArguments, readArguments]
  cases h with
  | misread h h' => rw [h, h']
  | read h h' hsame =>
    rw [h, h']
    exact hsame {} Progress.fresh_start

/-- What agrees, agrees behind arguments whose words pass. -/
theorem Agree.append (h : Agree files rest rest') {arguments : List String} {words : List Word}
    (hwords : ∀ later, classifyAll (arguments ++ later) = (classifyAll later).map (words ++ ·))
    (hpasses : Passes words) :
    Agree files (arguments ++ rest) (arguments ++ rest') := by
  cases h with
  | misread h h' => exact .misread (by rw [hwords, h]; rfl) (by rw [hwords, h']; rfl)
  | read h h' hsame =>
    refine .read (by rw [hwords, h]; rfl) (by rw [hwords, h']; rfl) fun p hp => ?_
    rcases hpasses p hp with ⟨stop, hstop⟩ | ⟨q, hq, hgoesOn⟩
    · rw [hstop, hstop]
    · rw [hgoesOn, hgoesOn, hsame q hq]

/-- A word that is an option by itself may stand in front. -/
theorem Agree.option {text : String} {key : OptionKey} {attached : Attached} {use : Use}
    (hne : text ≠ "--") (hclassify : classify text = .ok (.option key attached))
    (huses : attached.uses key = .ok [use]) (hawaits : use.awaits = false) (hfile : use.key ≠ .file)
    (h : Agree files rest rest') : Agree files ([text] ++ rest) ([text] ++ rest') := by
  have hwords : ∀ later, classifyAll ([text] ++ later) =
      (classifyAll later).map ([.option key attached] ++ ·) := classifyAll_cons hne hclassify
  exact h.append hwords (passes_option huses hawaits hfile)

/-- The option of the bound may stand in front with any argument behind it, also with one that is no
value. -/
theorem Agree.maxVars (value : String) (h : Agree files rest rest') :
    Agree files (["--max-vars", value] ++ rest) (["--max-vars", value] ++ rest') := by
  have hoption : ∀ later, classifyAll ("--max-vars" :: later) =
      (classifyAll later).map (.option .maxVars .nothing :: ·) := classifyAll_cons (by decide) rfl
  by_cases hseparator : value = "--"
  · have hwords : ∀ later, classifyAll (["--max-vars", value] ++ later) =
        .ok ([.option .maxVars .nothing, .separator] ++ later.map .operand) := by
      intro later
      rw [List.cons_append, hoption, List.singleton_append, classifyAll, if_pos hseparator]
      rfl
    exact .read (hwords rest) (hwords rest') fun p _ => by
      simp only [List.cons_append, Progress.takeWords]
      rfl
  · cases hvalue : classify value with
    | error e =>
      have hwords : ∀ later, classifyAll (["--max-vars", value] ++ later) = .error e := by
        intro later
        rw [List.cons_append, hoption, List.singleton_append, classifyAll_cons_error hseparator hvalue]
        rfl
      exact .misread (hwords rest) (hwords rest')
    | ok word =>
      refine h.append (fun later => ?_) (passes_maxVars word)
      rw [List.cons_append, hoption, List.singleton_append, classifyAll_cons hseparator hvalue]
      cases classifyAll later <;> rfl

/-- What agrees, agrees behind one more option. -/
theorem Agree.flag (flag : Flag) (h : Agree files rest rest') :
    Agree files (flag.arguments ++ rest) (flag.arguments ++ rest') := by
  cases flag with
  | ones => exact h.option (by decide) rfl rfl rfl (by decide)
  | binary => exact h.option (by decide) rfl rfl rfl (by decide)
  | strict => exact h.option (by decide) rfl rfl rfl (by decide)
  | maxVars value => exact h.maxVars value
  | maxVarsAttached value =>
    exact h.option (maxVarsAttached_ne_separator value) (classify_maxVarsAttached value) rfl rfl
      OptionKey.noConfusion

/-- What agrees, agrees behind any options. -/
theorem Agree.flags (flags : List Flag) (h : Agree files rest rest') :
    Agree files (flags.flatMap Flag.arguments ++ rest) (flags.flatMap Flag.arguments ++ rest') := by
  induction flags with
  | nil => exact h
  | cons flag flags ih =>
    rw [List.flatMap_cons, List.append_assoc, List.append_assoc]
    exact ih.flag flag

/-! ### A file in place of formulas -/

/-- The name of a file as it is commonly given: it is not taken for an option. -/
structure IsOrdinary (name : String) : Prop where
  ne_empty : name ≠ ""
  no_dash : name.toList.head? ≠ some '-'
  no_nul : '\x00' ∉ name.toList

theorem IsOrdinary.ne_separator {name : String} (h : IsOrdinary name) : name ≠ "--" := by
  rintro rfl
  exact h.no_dash rfl

theorem IsOrdinary.classify_eq {name : String} (h : IsOrdinary name) :
    classify name = .ok (.operand name) := by
  have hdash := h.no_dash
  rw [classify]
  split
  · rename_i heq
    rw [heq] at hdash
    exact absurd rfl hdash
  · rename_i heq
    rw [heq] at hdash
    exact absurd rfl hdash
  · rfl

/-- Behind the separator all operands are formulas. -/
theorem takeWords_operands (hgroup : p.group = .taking) (hstray : p.stray = []) (texts : List String) :
    p.takeWords (texts.map .operand) =
      .ok { p.settings with formulas := p.settings.formulas ++ texts } := by
  induction texts generalizing p with
  | nil =>
    rw [List.map_nil, Progress.takeWords, hstray, List.append_nil]
    rfl
  | cons text texts ih =>
    have hopen : p.group ≠ .closed := by rw [hgroup]; decide
    rw [List.map_cons, Progress.takeWords, Progress.operand, if_neg hopen, ih]
    · simp
    · rfl
    · exact hstray

theorem takeWords_separator (hopen : p.group ≠ .closed) (hstray : p.stray = []) (texts : List String) :
    p.takeWords (.separator :: texts.map .operand) =
      .ok { p.settings with formulas := p.settings.formulas ++ texts } := by
  rw [Progress.takeWords, Progress.separator, if_neg hopen, takeWords_operands]
  · rfl
  · exact hstray

/-- With a file, the separator and operands the file is named, and the operands are the formulas. -/
theorem takeWords_file (hp : p.Fresh) {name : String} (hname : IsOrdinary name) (texts : List String) :
    p.takeWords (.option .file .nothing :: .operand name :: .separator :: texts.map .operand) =
      .ok { p.settings with formulas := texts, file := name } := by
  have huses : Attached.uses .file .nothing = .ok [⟨.file, none⟩] := rfl
  have hgiven : Use.given ⟨.file, some name⟩ = some name := by
    simp [Use.given, hname.ne_separator]
  have hset : p.setAll [⟨.file, some name⟩] = .ok { p with settings := { p.settings with file := name } } := by
    simp only [Progress.setAll_singleton, Progress.set, hgiven, Option.getD_some]
  rw [Progress.takeWords, huses]
  show (p.endGroup.setAll [⟨.file, some name⟩] >>= fun q => q.takeWords _) = _
  rw [hp.endGroup, hset]
  show Progress.takeWords _ (.separator :: texts.map .operand) = _
  rw [takeWords_separator]
  · simp only [hp.formulas, List.nil_append]
  · exact hp.isOpen
  · exact hp.stray

/-- A file that holds formulas may be replaced by them. -/
theorem agree_file {name : String} (hname : IsOrdinary name) {formulas : List String}
    (hfile : files.formulas name = .ok formulas) (positional : List String) :
    Agree files (["-f", name, "--"] ++ positional) (["--"] ++ positional ++ formulas) := by
  have hseparator : ∀ texts : List String,
      classifyAll ("--" :: texts) = .ok (.separator :: texts.map .operand) := fun texts => by
    rw [classifyAll, if_pos rfl]
  have hoption : classify "-f" = .ok (.option .file .nothing) := rfl
  have hwords : classifyAll ("-f" :: name :: "--" :: positional) =
      .ok (.option .file .nothing :: .operand name :: .separator :: positional.map .operand) := by
    rw [classifyAll_cons (by decide) hoption, classifyAll_cons hname.ne_separator hname.classify_eq,
      hseparator]
    rfl
  refine .read hwords (hseparator (positional ++ formulas)) fun p hp => ?_
  rw [takeWords_file hp hname, takeWords_separator hp.isOpen hp.stray, hp.formulas, List.nil_append]
  have hnamed : ({ p.settings with formulas := positional, file := name } : Settings).file ≠ "" :=
    hname.ne_empty
  have hnone : ({ p.settings with formulas := positional ++ formulas } : Settings).file = "" := hp.file
  show Settings.respond _ (files.supplied _) = Settings.respond _ (files.supplied _)
  rw [supplied_of_file hnamed, supplied_of_no_file hnone, hfile]
  show Settings.report _ (positional ++ formulas) = Settings.report _ (positional ++ formulas ++ [])
  rw [List.append_nil]
  -- the report does not look at the formulas and the file that the settings name
  rfl

/-- **Formulas from a file** are treated like the same formulas behind those of the arguments: behind any
options the responses are the same.  The file may be laid out in any way: with blanks and comments, with
lines without a formula, and with line ends of each kind. -/
theorem respond_file_eq_arguments (flags : List Flag) (positional : List String)
    {formulas : List String} {name : String} {text : List Char} (hname : IsOrdinary name)
    (hentries : ∀ formula ∈ formulas, FormulaFile.IsEntry formula)
    (htext : FormulaFile.LaysOut formulas text)
    (hread : files.read name = .ok (String.ofList text).toUTF8) :
    files.respond (flags.flatMap Flag.arguments ++ (["-f", name, "--"] ++ positional)) =
      files.respond (flags.flatMap Flag.arguments ++ (["--"] ++ positional ++ formulas)) := by
  have hfile : files.formulas name = .ok formulas := by
    rw [formulas_of_read hname.no_nul hread, String.toList_ofList,
      FormulaFile.formulasOfText_of_laysOut htext hentries]
  exact ((agree_file hname hfile positional).flags flags).respond_eq

/-- A file with an absolute name, with a comment line, an indented formula with a comment behind it, an empty
line, and a last line without end; each kind of line end occurs. -/
theorem respond_file_eq_arguments_laid_out :
    let text := "# two formulas\n\t q & r # first\r\n\rs\x0b".toList
    let files : Files :=
      ⟨fun name => if name = "/tmp/x.txt" then .ok (String.ofList text).toUTF8 else .error .notFound⟩
    FormulaFile.LaysOut ["q & r", "s"] text ∧
      files.respond ["--max-vars", "3", "--ones", "-f", "/tmp/x.txt", "--", "--", "p"] =
        files.respond ["--max-vars", "3", "--ones", "--", "--", "p", "q & r", "s"] := by
  intro text files
  have hname : IsOrdinary "/tmp/x.txt" := ⟨by decide, by decide, by decide⟩
  have hentries : ∀ formula ∈ ["q & r", "s"], FormulaFile.IsEntry formula := by decide
  have hnone : FormulaFile.IsPadding [] := by decide
  have hnote : FormulaFile.IsNote "# two formulas".toList := by decide
  have hcomment : FormulaFile.Holds [] "# two formulas".toList := .nothing hnone hnote
  have hlead : FormulaFile.IsPadding "\t ".toList := by decide
  have htrail : FormulaFile.IsPadding " ".toList := by decide
  have hbehind : FormulaFile.IsNote "# first".toList := by decide
  have hfirst : FormulaFile.Holds ["q & r"] "\t q & r # first".toList :=
    .formula hlead htrail hbehind
  have htab : FormulaFile.IsPadding "\x0b".toList := by decide
  have hlast : FormulaFile.Holds ["s"] "s\x0b".toList := .formula hnone htab .none
  have hfeed : ['\n'] ∈ FormulaFile.lineEnds := by decide
  have hboth : ['\r', '\n'] ∈ FormulaFile.lineEnds := by decide
  have hreturn : ['\r'] ∈ FormulaFile.lineEnds := by decide
  have htext : FormulaFile.LaysOut ["q & r", "s"] text :=
    .more hcomment hfeed (.more hfirst hboth (.more (.nothing hnone .none) hreturn (.last hlast)))
  have hread : files.read "/tmp/x.txt" = .ok (String.ofList text).toUTF8 := rfl
  exact ⟨htext, respond_file_eq_arguments [.maxVars "3", .ones] ["--", "p"] hname hentries htext hread⟩

end Propositional.CommandLine
