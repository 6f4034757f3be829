import Stencil.Proofs.PlanFile
import Stencil.Proofs.Stamping
import Stencil.Proofs.Token

/-! The way of a template through the program: a plan is made for it and written to a file, and the file is loaded to
    stamp the template. What comes out is what the plan makes of the template. -/

namespace Stencil

/-- A plan for a template can be written to a file. -/
theorem TokenSettings.writable_of_planFor {t : TokenSettings} {m : Module} {p : Plan} (h : t.planFor m = .ok p) :
    p.Writable := by
  intro e he
  obtain ⟨hmakes, -⟩ := planFor_eq_ok h
  obtain ⟨setting, hsetting, hmade⟩ := (Result.exists_of_forall₂ hmakes).2 e he
  obtain ⟨v, -, hexpected⟩ := hmade.expected
  have hindex : ∀ ph ∈ placeholders, ph.index ≤ Json.maxWhole := by decide
  refine ⟨?_, Value.short_of_parse hexpected, Value.short_of_parse hmade.value⟩
  rw [hmade.index]
  exact hindex setting.1 (List.of_mem_zip hsetting).1

namespace Command

variable {s s' : Store}

theorem planned_eq_ok_iff {o : PlanOptions} {path : String} (htemplate : o.template = some path) {p : Plan} :
    planned s o = .ok p ↔ ∃ bytes m, moduleAt s path = .ok (bytes, m) ∧ o.params.planFor m = .ok p := by
  unfold planned
  rw [htemplate]
  dsimp only
  rw [Result.bind_eq_ok_iff]
  constructor
  · rintro ⟨⟨bytes, m⟩, hmodule, h⟩
    exact ⟨bytes, m, hmodule, Read.mapError_eq_ok_iff.mp h⟩
  · rintro ⟨bytes, m, hmodule, h⟩
    exact ⟨(bytes, m), hmodule, Read.mapError_eq_ok_iff.mpr h⟩

section Runs
variable {args : List String} {outcome : Outcome}

/-- A run that makes a plan and ends well has written the plan. -/
theorem saved_of_run {o : PlanOptions} (hargs : Request.ofArguments? args = some (.plan o))
    (hrun : run Store.files args s = (outcome, s')) (hexit : outcome.exit = 0) :
    ∃ p, planned s o = .ok p ∧ p.save Store.files o.output s = (.ok (), s') := by
  obtain ⟨r, printed, hplans, rfl⟩ := plans_of_run hargs hrun
  unfold Plans at hplans
  cases hplanned : planned s o with
  | error failure =>
    rw [hplanned] at hplans
    obtain ⟨rfl, -⟩ := hplans
    cases hexit
  | ok p =>
    rw [hplanned] at hplans
    obtain ⟨hr, hs'⟩ := hplans
    cases hresult : (p.save Store.files o.output s).1 with
    | error fault =>
      rw [hr, hresult] at hexit
      cases hexit
    | ok => exact ⟨p, rfl, Prod.ext hresult hs'.symm⟩

theorem unplanned_of_run {o : PlanOptions} (hargs : Request.ofArguments? args = some (.plan o))
    (hrun : run Store.files args s = (outcome, s')) {failure : Failure} (hplanned : planned s o = .error failure) :
    outcome.exit = 1 ∧ s' = s := by
  obtain ⟨r, printed, hplans, rfl⟩ := plans_of_run hargs hrun
  rw [Plans, hplanned] at hplans
  obtain ⟨rfl, rfl⟩ := hplans
  exact ⟨rfl, rfl⟩

theorem run_stamp_of_writable {o : StampOptions} (hargs : Request.ofArguments? args = some (.stamp o))
    (hbundle : o.bundle = none) {bytes : List UInt8} (hstamped : stamped s o = .ok bytes)
    (hwritable : s.Writable o.output) :
    ∃ printed s', run Store.files args s = (.ended printed none, s') ∧ s'.read o.output = .ok bytes := by
  obtain ⟨printed, s', hrun, hwritten⟩ := run_stamp_written hargs hbundle hstamped hwritable
  exact ⟨printed, s', hrun, hwritten.read⟩

end Runs

/-- The template is still there when a plan has been written to another file. -/
theorem moduleAt_of_save {p : Plan} {output path : String} {found : List UInt8 × Module}
    (hsave : p.save Store.files output s = (.ok (), s'))
    (hother : ∀ place, s.target path = .ok place → s.target output ≠ .ok place)
    (hmodule : moduleAt s path = .ok found) : moduleAt s' path = .ok found := by
  obtain ⟨place, htarget, rfl⟩ := Plan.save_eq_ok_iff.mp hsave
  obtain ⟨hread, hdecode⟩ := moduleAt_eq_ok_iff.mp hmodule
  refine moduleAt_eq_ok_iff.mpr ⟨?_, hdecode⟩
  refine (Store.read_put_file_iff (Store.get?_target htarget)).mpr (Or.inr ⟨fun hsame => ?_, hread⟩)
  exact hother place hsame htarget

/-- A plan that is made from a template is loaded again from its file, and a stamping of that template with it writes
    what the plan makes of the module; where no plan can be made, nothing is changed. -/
theorem plan_stamp {args : List String} {o : PlanOptions} {template : String}
    (hargs : Request.ofArguments? args = some (.plan o)) (htemplate : o.template = some template)
    (hother : ∀ place, s.target template = .ok place → s.target o.output ≠ .ok place)
    {outcome : Outcome} (hrun : run Store.files args s = (outcome, s')) :
    (outcome.exit = 0 → ∃ bytes m p, s.read template = .ok bytes ∧ Module.decode bytes = .ok m ∧
      o.params.planFor m = .ok p ∧ Plan.load Store.files o.output s' = (.ok p, s') ∧
      ∀ args' output, Request.ofArguments? args' = some (.stamp ⟨template, o.output, output, none, none⟩) →
        match p.apply m >>= Module.encode with
        | .ok stamped => s'.Writable output → ∃ printed s'',
            run Store.files args' s' = (.ended printed none, s'') ∧ s''.read output = .ok stamped
        | .error e => ∃ printed, run Store.files args' s' = (.ended printed (some (.refused e)), s')) ∧
    ((∀ bytes m p, s.read template = .ok bytes → Module.decode bytes = .ok m → o.params.planFor m ≠ .ok p) →
      outcome.exit = 1 ∧ s' = s) := by
  constructor
  · intro hexit
    obtain ⟨p, hplanned, hsave⟩ := saved_of_run hargs hrun hexit
    obtain ⟨bytes, m, hmodule, hplan⟩ := (planned_eq_ok_iff htemplate).mp hplanned
    obtain ⟨hread, hdecode⟩ := moduleAt_eq_ok_iff.mp hmodule
    obtain ⟨-, hload⟩ := Plan.load_of_save (TokenSettings.writable_of_planFor hplan) hsave
    refine ⟨bytes, m, p, hread, hdecode, hplan, hload, fun args' output hargs' => ?_⟩
    have hstamped := stamped_of_plan (o := ⟨template, o.output, output, none, none⟩)
      (moduleAt_of_save hsave hother hmodule) hload
    cases hresult : p.apply m >>= Module.encode with
    | error e =>
      rw [hresult] at hstamped
      exact run_stamp_of_refused hargs' hstamped
    | ok stamped =>
      rw [hresult] at hstamped
      exact run_stamp_of_writable hargs' rfl hstamped
  · intro hunplanned
    cases hplanned : planned s o with
    | error failure => exact unplanned_of_run hargs hrun hplanned
    | ok p =>
      obtain ⟨bytes, m, hmodule, hplan⟩ := (planned_eq_ok_iff htemplate).mp hplanned
      obtain ⟨hread, hdecode⟩ := moduleAt_eq_ok_iff.mp hmodule
      exact absurd hplan (hunplanned bytes m p hread hdecode)

/-- The bytes of the template that bears the name of a coin. -/
def coinBytes : List UInt8 :=
  [161, 28, 235, 11, 6, 0, 0, 0, 4, 1, 0, 2, 7, 2, 15, 8, 17, 32, 6, 49, 53, 0, 0] ++
    [4, 99, 111, 105, 110, 4, 67, 79, 73, 78, 4, 105, 110, 105, 116] ++ List.replicate 32 0 ++
    [3, 8, 7, 0, 0, 0, 0, 0, 0, 0, 2, 1, 9, 10, 2, 2, 1, 83, 10, 2, 2, 1, 55, 10, 2, 1, 0, 10, 2, 3, 2, 195, 169] ++
    [3, 8, 0, 1, 0, 0, 0, 0, 0, 0, 3, 8, 1, 0, 0, 0, 0, 0, 0, 0, 0]

/-- What is stamped from them. -/
def papaBytes : List UInt8 :=
  [161, 28, 235, 11, 6, 0, 0, 0, 4, 1, 0, 2, 7, 2, 15, 8, 17, 32, 6, 49, 59, 0, 0] ++
    [4, 112, 97, 112, 97, 4, 80, 65, 80, 65, 4, 105, 110, 105, 116] ++ List.replicate 32 0 ++
    [3, 8, 100, 0, 0, 0, 0, 0, 0, 0, 2, 1, 3, 10, 2, 5, 4, 74, 79, 75, 69, 10, 2, 5, 4, 74, 111, 107, 101] ++
    [10, 2, 1, 0, 10, 2, 3, 2, 195, 169, 3, 8, 5, 0, 0, 0, 0, 0, 0, 0, 3, 8, 255, 255, 255, 255, 255, 255, 255, 255, 0]

def coinStore : Store := ⟨[(["coin.mv"], .file coinBytes)]⟩

def planCoin : List String :=
  ["plan", "--template", "coin.mv", "-oplan.json", "--name=papa", "--decimals", "3", "--symbol", "JOKE",
    "--token-name=Joke", "--description=", "--icon-url=é", "--mint-price", "5",
    "--owner-allocation=18446744073709551615"]

def stampCoin : List String := ["stamp", "-t", "coin.mv", "-p", "plan.json", "-o", "out/papa.mv"]

open TokenSettings in
theorem plan_stamp_coin :
    Request.ofArguments? planCoin = some (.plan ⟨papa, some "coin.mv", "plan.json"⟩) ∧
    (∀ place, coinStore.target "coin.mv" = .ok place → coinStore.target "plan.json" ≠ .ok place) ∧
    ∃ printed s', run Store.files planCoin coinStore = (.ended printed none, s') ∧
      Plan.load Store.files "plan.json" s' = (.ok papaPlan, s') ∧
      ∃ printed' s'', run Store.files stampCoin s' = (.ended printed' none, s'') ∧
        s''.read "out/papa.mv" = .ok papaBytes := by
  have hargs : Request.ofArguments? planCoin = some (.plan ⟨papa, some "coin.mv", "plan.json"⟩) := by decide +kernel
  have hargs' : Request.ofArguments? stampCoin = some (.stamp ⟨"coin.mv", "plan.json", "out/papa.mv", none, none⟩) := by
    decide +kernel
  have htemplate : coinStore.target "coin.mv" = .ok ["coin.mv"] := by decide +kernel
  have hplan : coinStore.target "plan.json" = .ok ["plan.json"] := by decide +kernel
  have hother : ∀ place, coinStore.target "coin.mv" = .ok place → coinStore.target "plan.json" ≠ .ok place := by
    intro place h h'
    rw [hplan, ← h, htemplate] at h'
    exact absurd h' (by decide)
  have hdecode : Module.decode coinBytes = .ok coin := by decide +kernel
  have hpapa : papa.planFor coin = .ok papaPlan := by decide +kernel
  have hstamped : papaPlan.apply coin >>= Module.encode = .ok papaBytes := by decide +kernel
  have hcoin : coinStore.read "coin.mv" = .ok coinBytes := by decide +kernel
  have hexit : (run Store.files planCoin coinStore).1.exit = 0 := by decide +kernel
  have hwritable : (run Store.files planCoin coinStore).2.Writable "out/papa.mv" :=
    ⟨_, ["out", "papa.mv"], Prod.ext (by decide +kernel) rfl, by decide +kernel⟩
  obtain ⟨⟨outcome, s'⟩, hrun⟩ : ∃ ended, run Store.files planCoin coinStore = ended := ⟨_, rfl⟩
  rw [hrun] at hexit hwritable
  obtain ⟨hworks, -⟩ := plan_stamp hargs rfl hother hrun
  obtain ⟨bytes, m, p, hread, hm, hp, hload, hstamp⟩ := hworks hexit
  obtain rfl := Except.ok.inj (hcoin.symm.trans hread)
  obtain rfl := Except.ok.inj (hdecode.symm.trans hm)
  obtain rfl := Except.ok.inj (hpapa.symm.trans hp)
  simp only [hstamped] at hstamp
  obtain ⟨printed', s'', hrun', hread'⟩ := hstamp stampCoin "out/papa.mv" hargs' hwritable
  cases outcome with
  | misused => cases hexit
  | ended printed failure =>
    cases failure with
    | some failure => cases hexit
    | none => exact ⟨hargs, hother, printed, s', hrun, hload, printed', s'', hrun', hread'⟩

end Command

end Stencil
