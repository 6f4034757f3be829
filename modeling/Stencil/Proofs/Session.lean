import Stencil.Command.Run
import Stencil.Proofs.Store

/-! What requests come to on files in a store. Lines that are printed do not change what is done. -/

namespace Stencil.Command

open Session

variable {α β γ : Type} {s s' s'' : Store}

/-- What work on a store comes to, whatever has been printed before it. -/
def Gives (x : Session (StateM Store) α) (s : Store) (r : Except Failure α) (s' : Store) : Prop :=
  ∀ printed, ∃ printed', x printed s = ((r, printed'), s')

namespace Gives

theorem pure (a : α) (s : Store) : Gives (Pure.pure a) s (.ok a) s := fun printed => ⟨printed, rfl⟩

theorem print (lines : List String) (s : Store) : Gives (Session.print lines) s (.ok ()) s :=
  fun printed => ⟨printed ++ lines, rfl⟩

theorem fail (failure : Failure) (s : Store) : Gives (Session.fail failure : Session _ α) s (.error failure) s :=
  fun printed => ⟨printed, rfl⟩

theorem bind {x : Session (StateM Store) α} {f : α → Session (StateM Store) β} {a : α} {r : Except Failure β}
    (hx : Gives x s (.ok a) s') (hf : Gives (f a) s' r s'') : Gives (x >>= f) s r s'' := by
  intro printed
  obtain ⟨printed', hx⟩ := hx printed
  obtain ⟨printed'', hf⟩ := hf printed'
  refine ⟨printed'', ?_⟩
  simp only [Bind.bind, ExceptT.bind, ExceptT.mk, StateT.bind, hx]
  exact hf

theorem bind_error {x : Session (StateM Store) α} {f : α → Session (StateM Store) β} {failure : Failure}
    (hx : Gives x s (.error failure) s') : Gives (x >>= f) s (.error failure) s' := by
  intro printed
  obtain ⟨printed', hx⟩ := hx printed
  refine ⟨printed', ?_⟩
  simp only [Bind.bind, ExceptT.bind, ExceptT.mk, StateT.bind, hx]
  rfl

theorem lift (work : StateM Store α) (s : Store) :
    Gives (liftM work : Session (StateM Store) α) s (.ok (work s).1) (work s).2 := fun printed => ⟨printed, rfl⟩

theorem result {ε : Type} (r : Except ε α) (failure : ε → Failure) (s : Store) :
    Gives (Session.result r failure) s (r.mapError failure) s := by
  cases r with
  | ok a => exact pure a s
  | error e => exact fail _ s

/-- Work on files comes to what it does, and its fault becomes a failure. -/
theorem file (work : StateM Store (Except FileFault α)) (failure : FileFault → Failure) (s : Store) :
    Gives (Session.file work failure) s ((work s).1.mapError failure) (work s).2 := by
  refine bind (lift work s) ?_
  cases (work s).1 with
  | ok a => exact pure a _
  | error fault => exact fail _ _

/-- Steps that leave the store as it is come to what their results come to. -/
theorem bind_same {x : Session (StateM Store) α} {f : α → Session (StateM Store) β} {rx : Except Failure α}
    {g : α → Except Failure β} (hx : Gives x s rx s) (hf : ∀ a, Gives (f a) s (g a) s) :
    Gives (x >>= f) s (rx >>= g) s := by
  cases rx with
  | ok a => exact hx.bind (hf a)
  | error failure => exact hx.bind_error

theorem and_print {x : Session (StateM Store) Unit} {r : Except Failure Unit} (hx : Gives x s r s')
    (lines : List String) : Gives (do x; Session.print lines) s r s' := by
  cases r with
  | ok => exact hx.bind (print lines s')
  | error failure => exact hx.bind_error

theorem print_if (p : Prop) [Decidable p] (lines : List String) {f : Unit → Session (StateM Store) α}
    {r : Except Failure α} (hf : Gives (f ()) s r s') :
    Gives (if p then Session.print lines >>= f else f ()) s r s' := by
  split
  · exact bind (print lines s) hf
  · exact hf

end Gives

/-- Where a result leads to: to what follows it, or at once to the end. -/
def Leads (x : Except Failure α) (s : Store) (next : α → Prop) (r : Except Failure β) (s' : Store) : Prop :=
  match x with
  | .ok a => next a
  | .error failure => r = .error failure ∧ s' = s

theorem Leads.imp {x : Except Failure α} {next next' : α → Prop} {r : Except Failure β} (h : Leads x s next r s')
    (himp : ∀ a, next a → next' a) : Leads x s next' r s' := by
  cases x with
  | ok a => exact himp a h
  | error failure => exact h

theorem leads_bind_iff {x : Except Failure α} {g : α → Except Failure γ} {next : γ → Prop} {r : Except Failure β} :
    Leads (x >>= g) s next r s' ↔ Leads x s (fun a => Leads (g a) s next r s') r s' := by
  cases x <;> rfl

theorem Gives.bind_leads {x : Session (StateM Store) α} {f : α → Session (StateM Store) β} {rx : Except Failure α}
    {r : Except Failure β} (hx : Gives x s rx s') (h : Leads rx s' (fun a => Gives (f a) s' r s'') r s'') :
    Gives (x >>= f) s r s'' := by
  cases rx with
  | ok a => exact hx.bind h
  | error failure =>
    obtain ⟨rfl, rfl⟩ := h
    exact hx.bind_error

/-! ### Requests -/

theorem gives_read (s : Store) (path : String) : Gives (Session.file (Store.files.read path) (.unreadable path)) s
    ((s.read path).mapError (.unreadable path)) s :=
  .file (Store.files.read path) (.unreadable path) s

theorem gives_load (s : Store) (path : String) :
    Gives (liftM (Plan.load Store.files path) : Session (StateM Store) _) s
      (.ok (Plan.load Store.files path s).1) s := by
  have hlift := Gives.lift (Plan.load Store.files path) s
  rwa [show (Plan.load Store.files path s).2 = s from Store.files_load_snd _ _ _] at hlift

/-- The bytes of a module in a file, and the module. -/
def moduleAt (s : Store) (path : String) : Except Failure (List UInt8 × Module) := do
  let bytes ← (s.read path).mapError (.unreadable path)
  return (bytes, ← (Module.decode bytes).mapError (.notModule path))

theorem gives_readModule (s : Store) (path : String) :
    Gives (readModule Store.files path) s (moduleAt s path) s :=
  (gives_read s path).bind_same fun bytes =>
    (Gives.result (Module.decode bytes) _ s).bind_same fun m => .pure (bytes, m) s

/-- The bytes that a stamping is to write. -/
def stamped (s : Store) (o : StampOptions) : Except Failure (List UInt8) := do
  let (_, module) ← moduleAt s o.template
  let plan ← ((Plan.load Store.files o.plan s).1 : Except LoadError Plan).mapError .notLoaded
  let m ← (plan.apply module).mapError .refused
  m.encode.mapError .refused

theorem moduleAt_eq_ok_iff {path : String} {bytes : List UInt8} {m : Module} :
    moduleAt s path = .ok (bytes, m) ↔ s.read path = .ok bytes ∧ Module.decode bytes = .ok m := by
  unfold moduleAt
  rw [Result.bind_eq_ok_iff]
  constructor
  · rintro ⟨found, hread, h⟩
    obtain ⟨m', hdecode, h⟩ := Result.bind_eq_ok_iff.mp h
    cases Result.pure_eq_ok_iff.mp h
    exact ⟨Read.mapError_eq_ok_iff.mp hread, Read.mapError_eq_ok_iff.mp hdecode⟩
  · rintro ⟨hread, hdecode⟩
    refine ⟨bytes, Read.mapError_eq_ok_iff.mpr hread, Result.bind_eq_ok_iff.mpr ⟨m, ?_, rfl⟩⟩
    exact Read.mapError_eq_ok_iff.mpr hdecode

/-- Once a template and a plan are there, what is written is what the plan makes of the template. -/
theorem stamped_of_plan {o : StampOptions} {bytes : List UInt8} {m : Module} {p : Plan}
    (hmodule : moduleAt s o.template = .ok (bytes, m)) (hload : Plan.load Store.files o.plan s = (.ok p, s)) :
    stamped s o = (p.apply m >>= Module.encode).mapError .refused := by
  unfold stamped
  rw [hmodule, hload]
  change ((p.apply m).mapError Failure.refused >>= fun m => m.encode.mapError Failure.refused) = _
  cases p.apply m <;> rfl

/-- The companions that a module is bundled with. -/
def companions (s : Store) : Option String → Except Failure (List (List UInt8))
  | none => .ok []
  | some path => ((s.read path).mapError (.unreadable path)).map ([·])

/-- What the writing of a bundle comes to. -/
def Bundles (s : Store) (bytes : List UInt8) (dependency : Option String) (path : String) (r : Except Failure Unit)
    (s' : Store) : Prop :=
  Leads (companions s dependency) s (fun others =>
    ∃ b, Bundle.ofModules bytes others Bundle.frameworkPackages = .ok b ∧
      r = (b.save Store.files path s).1.mapError .file ∧ s' = (b.save Store.files path s).2) r s'

/-- What becomes of stamped bytes. -/
inductive Delivers (s : Store) (o : StampOptions) (bytes : List UInt8) : Except Failure Unit → Store → Prop
  | unmade {fault : FileFault} {s' : Store} : Store.files.makeParents o.output s = (.error fault, s') →
    Delivers s o bytes (.error (.file fault)) s'
  | unwritten {fault : FileFault} {s' : Store} : Store.files.makeParents o.output s = (.ok (), s') →
    s'.target o.output = .error fault → Delivers s o bytes (.error (.unwritable o.output fault)) s'
  | alone {s' : Store} : s.Written o.output bytes s' → o.bundle = none → Delivers s o bytes (.ok ()) s'
  | bundled {path : String} {s' s'' : Store} {r : Except Failure Unit} : s.Written o.output bytes s' →
    o.bundle = some path → Bundles s' bytes o.dependency path r s'' → Delivers s o bytes r s''

/-- What a stamping comes to. -/
def Stamps (s : Store) (o : StampOptions) (r : Except Failure Unit) (s' : Store) : Prop :=
  Leads (stamped s o) s (fun bytes => Delivers s o bytes r s') r s'

theorem gives_writeBundle {bytes : List UInt8} {dependency : Option String} {path : String} {r : Except Failure Unit}
    (h : Bundles s bytes dependency path r s') : Gives (writeBundle Store.files bytes dependency path) s r s' := by
  have hsave (others : List (List UInt8))
      (h : ∃ b, Bundle.ofModules bytes others Bundle.frameworkPackages = .ok b ∧
        r = (b.save Store.files path s).1.mapError .file ∧ s' = (b.save Store.files path s).2) :
      Gives (do
        let bundle ← Session.result (Bundle.ofModules bytes others Bundle.frameworkPackages) (.refused ∘ .literal)
        Session.file (bundle.save Store.files path) .file
        print [keyValue "Bundle" path]) s r s' := by
    obtain ⟨b, hb, rfl, rfl⟩ := h
    rw [hb]
    exact .bind (.pure b s) ((Gives.file (b.save Store.files path) .file s).and_print _)
  unfold Bundles companions at h
  unfold writeBundle
  cases dependency with
  | none => exact .bind (.pure [] s) (hsave [] h)
  | some dependency =>
    dsimp only at h
    refine (gives_read s dependency).bind_leads ?_
    cases hread : s.read dependency with
    | error fault =>
      rw [hread] at h
      exact h
    | ok d =>
      rw [hread] at h
      exact .bind (.pure [d] s) (hsave [d] h)

theorem gives_stamp {o : StampOptions} {r : Except Failure Unit} (h : Stamps s o r s') :
    Gives (stamp Store.files o) s r s' := by
  unfold Stamps stamped at h
  rw [leads_bind_iff] at h
  unfold stamp
  refine .bind (.print _ s) (.bind (.print _ s) ?_)
  refine (gives_readModule s o.template).bind_leads (h.imp fun (template, module) h => ?_)
  rw [leads_bind_iff] at h
  refine .bind (.print _ s) (.bind (gives_load s o.plan) ?_)
  refine (Gives.result _ _ s).bind_leads (h.imp fun plan h => ?_)
  rw [leads_bind_iff] at h
  refine .print_if _ _ ((Gives.result _ _ s).bind_leads (h.imp fun m h => ?_))
  refine .bind (.print _ s) ((Gives.result _ _ s).bind_leads (h.imp fun bytes h => ?_))
  refine .bind (.print _ s) ?_
  have hmade := Gives.file (Store.files.makeParents o.output) .file s
  cases h with
  | unmade hmakes =>
    rw [hmakes] at hmade
    exact hmade.bind_error
  | unwritten hmakes htarget =>
    rw [hmakes] at hmade
    refine hmade.bind (Gives.bind_error ?_)
    have hwrite := Gives.file (Store.files.write o.output bytes) (.unwritable o.output) s'
    rwa [Store.files_write_of_error htarget] at hwrite
  | alone hwritten hbundle =>
    obtain ⟨s₁, place, hmakes, htarget, rfl⟩ := hwritten
    have hwrite := Gives.file (Store.files.write o.output bytes) (.unwritable o.output) s₁
    rw [Store.files_write_of_ok htarget] at hwrite
    rw [hmakes] at hmade
    refine hmade.bind (hwrite.bind ?_)
    simp only [hbundle]
    exact .print_if _ _ (.print _ _)
  | bundled hwritten hbundle hbundles =>
    obtain ⟨s₁, place, hmakes, htarget, rfl⟩ := hwritten
    have hwrite := Gives.file (Store.files.write o.output bytes) (.unwritable o.output) s₁
    rw [Store.files_write_of_ok htarget] at hwrite
    rw [hmakes] at hmade
    refine hmade.bind (hwrite.bind ?_)
    simp only [hbundle]
    exact .bind (.print _ _) ((gives_writeBundle hbundles).and_print _)

/-- The packages on which every token depends can be spelled in full. -/
theorem exists_ofModules (bytes : List UInt8) (others : List (List UInt8)) :
    ∃ dependencies, Bundle.ofModules bytes others Bundle.frameworkPackages =
      .ok ⟨(bytes :: others).map Hex.encode, dependencies⟩ := by
  have hnormalize : (Bundle.frameworkPackages.mapM Address.normalize).isOk = true := by decide +kernel
  unfold Bundle.ofModules
  cases h : Bundle.frameworkPackages.mapM Address.normalize with
  | error e =>
    rw [h] at hnormalize
    cases hnormalize
  | ok dependencies => exact ⟨dependencies, rfl⟩

theorem leads_total {x : Except Failure α} {next : α → Except Failure β → Store → Prop}
    (h : ∀ a, ∃ r s', next a r s') : ∃ r s', Leads x s (fun a => next a r s') r s' := by
  cases x with
  | ok a => exact h a
  | error failure => exact ⟨.error failure, s, rfl, rfl⟩

theorem delivers_total (s : Store) (o : StampOptions) (bytes : List UInt8) : ∃ r s', Delivers s o bytes r s' := by
  cases hmakes : Store.files.makeParents o.output s with
  | mk made s₁ =>
    cases made with
    | error fault => exact ⟨_, _, .unmade hmakes⟩
    | ok =>
      cases htarget : s₁.target o.output with
      | error fault => exact ⟨_, _, .unwritten hmakes htarget⟩
      | ok place =>
        have hwritten : s.Written o.output bytes _ := ⟨s₁, place, hmakes, htarget, rfl⟩
        cases hbundle : o.bundle with
        | none => exact ⟨_, _, .alone hwritten hbundle⟩
        | some path =>
          have hbundles : ∃ r s', Bundles (s₁.put place (.file bytes)) bytes o.dependency path r s' := by
            refine leads_total fun others => ?_
            obtain ⟨dependencies, hb⟩ := exists_ofModules bytes others
            exact ⟨_, _, _, hb, rfl, rfl⟩
          obtain ⟨r, s', hbundles⟩ := hbundles
          exact ⟨r, s', .bundled hwritten hbundle hbundles⟩

theorem stamps_total (s : Store) (o : StampOptions) : ∃ r s', Stamps s o r s' := leads_total (delivers_total s o)

/-! ### Planning -/

/-- The plan that is to be written. -/
def planned (s : Store) (o : PlanOptions) : Except Failure Plan :=
  match o.template with
  | some path => do
    let (_, module) ← moduleAt s path
    (o.params.planFor module).mapError .refused
  | none => o.params.plan.mapError .refused

/-- What the making of a plan comes to. -/
def Plans (s : Store) (o : PlanOptions) (r : Except Failure Unit) (s' : Store) : Prop :=
  Leads (planned s o) s
    (fun p => r = (p.save Store.files o.output s).1.mapError .file ∧ s' = (p.save Store.files o.output s).2) r s'

theorem gives_plan {o : PlanOptions} {r : Except Failure Unit} (h : Plans s o r s') :
    Gives (plan Store.files o) s r s' := by
  have hsave (p : Plan) (lines : List String)
      (h : r = (p.save Store.files o.output s).1.mapError .file ∧ s' = (p.save Store.files o.output s).2) :
      Gives (do Session.file (p.save Store.files o.output) .file; print lines) s r s' := by
    obtain ⟨rfl, rfl⟩ := h
    exact (Gives.file (p.save Store.files o.output) .file s).and_print lines
  unfold Plans planned at h
  unfold plan
  refine .bind (.print _ s) ?_
  cases htemplate : o.template with
  | none =>
    rw [htemplate] at h
    exact (Gives.result _ _ s).bind_leads (h.imp fun p h => hsave p _ h)
  | some path =>
    rw [htemplate, leads_bind_iff] at h
    refine (gives_readModule s path).bind_leads (h.imp fun (_, module) h => ?_)
    exact .bind (.print _ s) ((Gives.result _ _ s).bind_leads (h.imp fun p h => hsave p _ h))

theorem plans_total (s : Store) (o : PlanOptions) : ∃ r s', Plans s o r s' := leads_total fun _ => ⟨_, _, rfl, rfl⟩

/-! ### Runs -/

/-- The failure of a result. -/
def failure? : Except Failure α → Option Failure
  | .ok _ => none
  | .error failure => some failure

theorem run_of_gives {args : List String} {request : Request} (hargs : Request.ofArguments? args = some request)
    {r : Except Failure Unit} (h : Gives (perform Store.files request) s r s') :
    ∃ printed, run Store.files args s = (.ended printed (failure? r), s') := by
  obtain ⟨printed, h⟩ := h []
  refine ⟨printed, ?_⟩
  unfold run
  rw [hargs]
  simp only [Bind.bind, StateT.bind, ExceptT.run, h]
  cases r <;> rfl

/-- A run that makes a plan comes to what the making of the plan comes to. -/
theorem plans_of_run {args : List String} {o : PlanOptions} (hargs : Request.ofArguments? args = some (.plan o))
    {outcome : Outcome} (h : run Store.files args s = (outcome, s')) :
    ∃ r printed, Plans s o r s' ∧ outcome = .ended printed (failure? r) := by
  obtain ⟨r, s₁, hplans⟩ := plans_total s o
  obtain ⟨printed, hrun⟩ := run_of_gives hargs (gives_plan hplans)
  cases hrun.symm.trans h
  exact ⟨r, printed, hplans, rfl⟩

theorem stamps_of_run {args : List String} {o : StampOptions} (hargs : Request.ofArguments? args = some (.stamp o))
    {outcome : Outcome} (h : run Store.files args s = (outcome, s')) :
    ∃ r printed, Stamps s o r s' ∧ outcome = .ended printed (failure? r) := by
  obtain ⟨r, s₁, hstamps⟩ := stamps_total s o
  obtain ⟨printed, hrun⟩ := run_of_gives hargs (gives_stamp hstamps)
  cases hrun.symm.trans h
  exact ⟨r, printed, hstamps, rfl⟩

end Stencil.Command
