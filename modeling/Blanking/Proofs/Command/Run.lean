import Blanking.Command.Run
import Blanking.Proofs.Number.Word

/-! # What a successful command went through

A command that succeeds went through all of its steps, one after the other. Most of them only add
to the log, and leave alone what is printed or written. -/

namespace Blanking

/-- Whether no more was printed or written between two reports. -/
structure Report.SameOutput (before after : Report) : Prop where
  stdout : after.stdout = before.stdout
  written : after.written = before.written

theorem Report.SameOutput.refl (report : Report) : report.SameOutput report := ⟨rfl, rfl⟩

theorem Report.SameOutput.trans {first second third : Report} (h : first.SameOutput second)
    (h' : second.SameOutput third) : first.SameOutput third :=
  ⟨h'.stdout.trans h.stdout, h'.written.trans h.written⟩

/-- The requested services that are decoded from a sampling: those of its standard that it can
carry. -/
def Sampling.selected (s : Sampling) (requested : ServiceSet) (strictness : Strictness) :
    ServiceSet :=
  s.check (.ofList (requested.toList.filter fun service =>
    service.transmission.standards.intersects s.standards)) strictness

namespace Run

variable {α β : Type} {report last : Report}

/-- Runs an action after others that led to a report. -/
def runFrom (action : Run α) (report : Report) : Except CommandError α × Report :=
  (ExceptT.run action).run report

theorem run_eq_runFrom (action : Run α) :
    action.run = action.runFrom ⟨[], ByteArray.empty, none⟩ := rfl

theorem runFrom_bind (action : Run α) (rest : α → Run β) (report : Report) :
    (action >>= rest).runFrom report =
      match action.runFrom report with
      | (.ok value, next) => (rest value).runFrom next
      | (.error cause, next) => (.error cause, next) := by
  simp only [runFrom, ExceptT.run_bind, StateT.run_bind]
  cases hfound : ((ExceptT.run action).run report : Id _) with
  | mk result next => cases result <;> rfl

theorem bind_eq_ok {action : Run α} {rest : α → Run β} {value : β}
    (h : (action >>= rest).runFrom report = (.ok value, last)) :
    ∃ found next, action.runFrom report = (.ok found, next) ∧
      (rest found).runFrom next = (.ok value, last) := by
  rw [runFrom_bind] at h
  split at h
  next found next hfound => exact ⟨found, next, hfound, h⟩
  next => exact absurd (congrArg Prod.fst h) (by simp)

theorem pure_eq_ok {found value : α}
    (h : (pure found : Run α).runFrom report = (.ok value, last)) :
    (Except.ok found : Except CommandError α) = .ok value ∧ report.SameOutput last := by
  obtain ⟨hvalue, rfl⟩ := Prod.mk.inj h
  exact ⟨hvalue, .refl report⟩

theorem log_bind_eq_ok {entries : List Log.Entry} {rest : Unit → Run α} {value : α}
    (h : (log entries >>= rest).runFrom report = (.ok value, last)) :
    ∃ next, report.SameOutput next ∧ (rest ()).runFrom next = (.ok value, last) :=
  ⟨{ report with log := report.log ++ entries }, ⟨rfl, rfl⟩, h⟩

theorem ofExcept_eq_ok {ε : Type} {wrap : ε → CommandError} {result : Except ε α} {value : α}
    (h : (ofExcept wrap result).runFrom report = (.ok value, last)) :
    result = .ok value ∧ report.SameOutput last := by
  cases result with
  | ok found =>
      obtain ⟨hvalue, rfl⟩ := Prod.mk.inj h
      exact ⟨congrArg _ (Except.ok.inj hvalue), .refl report⟩
  | error cause => exact absurd (congrArg Prod.fst h) (by simp [ofExcept, runFrom])

theorem ofWords_eq_ok {found : Option α} {value : α}
    (h : (ofWords found).runFrom report = (.ok value, last)) :
    found = some value ∧ report.SameOutput last := by
  cases found with
  | some found =>
      obtain ⟨hvalue, rfl⟩ := Prod.mk.inj h
      exact ⟨congrArg _ (Except.ok.inj hvalue), .refl report⟩
  | none => exact absurd (congrArg Prod.fst h) (by simp [ofWords, runFrom])

theorem ofChecked_eq_ok {ε : Type} {wrap : ε → CommandError} {result : Checked ε α} {value : α}
    (h : (ofChecked wrap result).runFrom report = (.ok value, last)) :
    result.run = some (.ok value) ∧ report.SameOutput last := by
  obtain ⟨outcome, middle, hwords, hexcept⟩ := bind_eq_ok h
  obtain ⟨hfound, hfirst⟩ := ofWords_eq_ok hwords
  obtain ⟨rfl, hsecond⟩ := ofExcept_eq_ok hexcept
  exact ⟨hfound, hfirst.trans hsecond⟩

section Conditions

variable {condition : Prop} [Decidable condition] {rest : Unit → Run α} {value : α}

theorem ite_log_eq_ok {entries : List Log.Entry}
    (h : (if condition then log entries >>= rest else rest ()).runFrom report =
      (.ok value, last)) :
    ∃ next, report.SameOutput next ∧ (rest ()).runFrom next = (.ok value, last) := by
  split at h
  next => exact log_bind_eq_ok h
  next => exact ⟨report, .refl report, h⟩

theorem ite_throw_eq_ok {cause : CommandError}
    (h : (if condition then (throw cause : Run Unit) >>= rest else rest ()).runFrom report =
      (.ok value, last)) : ¬ condition ∧ (rest ()).runFrom report = (.ok value, last) := by
  split at h
  next => exact absurd (congrArg Prod.fst h) (by simp [runFrom])
  next hnot => exact ⟨hnot, h⟩

theorem ite_action_throw_eq_ok {action : Run Unit} {cause : CommandError}
    (h : (if condition then action >>= fun _ => (throw cause : Run Unit) >>= rest
      else rest ()).runFrom report = (.ok value, last)) :
    ¬ condition ∧ (rest ()).runFrom report = (.ok value, last) := by
  split at h
  next =>
    obtain ⟨_, _, _, h⟩ := bind_eq_ok h
    exact absurd (congrArg Prod.fst h) (by simp [runFrom])
  next hnot => exact ⟨hnot, h⟩

theorem ite_throw_log_eq_ok {strict : Prop} [Decidable strict] {cause : CommandError}
    {entries : List Log.Entry}
    (h : (if condition then
        if strict then (throw cause : Run Unit) >>= fun _ => log entries >>= rest
        else log entries >>= rest
      else rest ()).runFrom report = (.ok value, last)) :
    ∃ next, report.SameOutput next ∧ (rest ()).runFrom next = (.ok value, last) := by
  split at h
  next =>
    obtain ⟨_, h⟩ := ite_throw_eq_ok h
    exact log_bind_eq_ok h
  next => exact ⟨report, .refl report, h⟩

end Conditions

/-! ## Steps of commands -/

theorem settingsFile_eq_ok {files : Files} {path : String} {settings : Settings}
    (h : (settingsFile files path).runFrom report = (.ok settings, last)) :
    report.SameOutput last := by
  unfold settingsFile at h
  obtain ⟨bytes, middle, hbytes, htext⟩ := bind_eq_ok h
  refine (ofExcept_eq_ok hbytes).2.trans ?_
  split at htext
  next => exact absurd (congrArg Prod.fst htext) (by simp [runFrom])
  next =>
    split at htext
    next =>
      obtain rfl := (Prod.mk.inj htext).2
      exact .refl _
    next => exact absurd (congrArg Prod.fst htext) (by simp [runFrom])

theorem validate?_of_toSampling {settings : Settings} {s : Sampling}
    (h : settings.toSampling.run = some (.ok s)) : s.validate?.run = some (.ok ()) := by
  obtain ⟨found, _, h⟩ := Checked.bind_eq_ok h
  obtain ⟨_, hvalid, h⟩ := Checked.bind_eq_ok h
  obtain rfl : found = s := Except.ok.inj (Option.some.inj h)
  exact Checked.run_adapt_eq_ok_iff.mp hvalid

theorem sampling_eq_ok {files : Files} {options : SamplingOptions} {s : Sampling}
    (h : (sampling files options).runFrom report = (.ok s, last)) :
    s.validate?.run = some (.ok ()) ∧ report.SameOutput last := by
  have hchecked {before : Report} {settings : Settings}
      (h : (ofChecked CommandError.settings settings.toSampling).runFrom before =
        (.ok s, last)) :
      s.validate?.run = some (.ok ()) ∧ before.SameOutput last := by
    obtain ⟨hfound, hlast⟩ := ofChecked_eq_ok h
    exact ⟨validate?_of_toSampling hfound, hlast⟩
  unfold sampling at h
  dsimp only at h
  split at h
  next path _ =>
    obtain ⟨settings, middle, hsettings, h⟩ := bind_eq_ok h
    obtain ⟨hvalid, hlast⟩ := hchecked h
    exact ⟨hvalid, (settingsFile_eq_ok hsettings).trans hlast⟩
  next => exact hchecked h

theorem permissions_eq_ok {s : Sampling} {services : List Service} {strictness : Strictness}
    (h : (permissions s services strictness).runFrom report = (.ok (), last)) :
    report.SameOutput last := by
  obtain ⟨_, middle, hwords, hlast⟩ := bind_eq_ok h
  exact (ofWords_eq_ok hwords).2.trans (pure_eq_ok hlast).2

/-- What a command reads is found among the files, or comes through the pipe. -/
theorem input_eq_ok {files : Files} {path : String} {found : Except FileError ByteArray}
    (h : (input files path).runFrom report = (.ok found, last)) :
    report.SameOutput last ∧ ∀ content, found = .ok content →
      if isPipe path then content = files.piped else files.read path = .ok content := by
  unfold input at h
  split at h
  next hpipe =>
    obtain ⟨hfound, rfl⟩ := Prod.mk.inj h
    refine ⟨.refl report, ?_⟩
    rintro content rfl
    rw [if_pos hpipe]
    exact (Except.ok.inj (Except.ok.inj hfound)).symm
  next hfile =>
    split at h
    next content hread =>
      obtain ⟨hfound, rfl⟩ := Prod.mk.inj h
      refine ⟨.refl report, ?_⟩
      rintro content' rfl
      rw [if_neg hfile, hread]
      exact Except.ok.inj hfound
    next hread =>
      obtain ⟨hfound, rfl⟩ := Prod.mk.inj h
      refine ⟨.refl report, ?_⟩
      rintro content' rfl
      exact absurd (Except.ok.inj hfound) (by simp)
    next => exact absurd (congrArg Prod.fst h) (by simp [runFrom])

theorem checkOutput_eq_ok {files : Files} {path : String}
    (h : (checkOutput files path).runFrom report = (.ok (), last)) :
    report.SameOutput last := by
  unfold checkOutput at h
  split at h
  next =>
    obtain ⟨_, rfl⟩ := Prod.mk.inj h
    exact .refl report
  next => exact (ofExcept_eq_ok h).2

theorem selectServices_eq_ok {s : Sampling} {requested selected : ServiceSet}
    {strictness : Strictness} {strict : Bool}
    (h : (selectServices s requested strictness strict).runFrom report = (.ok selected, last)) :
    report.SameOutput last ∧ selected = s.selected requested strictness := by
  unfold selectServices at h
  dsimp only at h
  obtain ⟨first, hfirst, h⟩ := ite_log_eq_ok h
  obtain ⟨_, second, hpermitted, h⟩ := bind_eq_ok h
  obtain ⟨third, hthird, h⟩ := log_bind_eq_ok h
  obtain ⟨fourth, hfourth, h⟩ := ite_throw_log_eq_ok h
  obtain ⟨_, h⟩ := ite_throw_eq_ok h
  obtain ⟨hselected, rfl⟩ := Prod.mk.inj h
  have hsame := hfirst.trans (permissions_eq_ok hpermitted)
  exact ⟨(hsame.trans hthird).trans hfourth, (Except.ok.inj hselected).symm⟩

end Run

end Blanking
