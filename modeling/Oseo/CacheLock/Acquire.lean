import Mathlib.Algebra.Group.Nat.Defs
import Mathlib.Logic.Function.Basic

/-!
# Acquiring a cache lock

`acquireFileLock` of the Node and the Deno host as a machine over the lock directory: a point is
the file operation a call awaits next, with what it has kept so far, and a step performs that
operation and runs to the next one. A held lock is renewed and released the same way.

An operation fails with `notFound` or `alreadyExists` by what the directory holds; every other
failure is a fault of the moment. The contents of a file are the owner that `parseCacheLockOwner`
makes of them.
-/

namespace Oseo.CacheLock

section

/-- The name of a file of the lock directory. -/
abbrev Name := List Char

/-- Who holds a lease, and until when. -/
structure CacheLockOwner where
  expiresAtMilliseconds : ℤ
  token : Name
deriving DecidableEq, Repr

/-- A directory entry. -/
structure Entry where
  name : Name
  isFile : Bool
  contents : Option CacheLockOwner
deriving DecidableEq, Repr

/-- The entries of a directory, in the order the host lists them. -/
abbrev Directory := List Entry

/-- Why an operation failed. -/
inductive Failure where
  | notFound
  | alreadyExists
  | busy
  | permission
  | other
deriving DecidableEq, Repr

/-- A failure whatever the directory holds. -/
inductive Fault where
  | busy
  | permission
  | other
deriving DecidableEq, Repr

def Fault.failure : Fault → Failure
  | .busy => .busy
  | .permission => .permission
  | .other => .other

/-! ## Names -/

def cacheLockLifetimeMilliseconds : ℤ := 30000

def cacheLockRenameSafetyMilliseconds : ℤ := 1000

def cacheLockOwnerName (token : Name) : Name := "owner-".toList ++ token ++ ".json".toList

/-- The operations that rename a state file. -/
inductive Operation where
  | reclaim
  | release
  | renew
deriving DecidableEq, Repr

def Operation.text : Operation → Name
  | .reclaim => "reclaim".toList
  | .release => "release".toList
  | .renew => "renew".toList

def cacheLockOperationPath (operation : Operation) (token : Name) (expiresAt : ℤ) (uuid : Name) :
    Name :=
  operation.text ++ "-".toList ++ (toString expiresAt).toList ++ "-".toList ++ token ++
    "-".toList ++ uuid ++ ".json".toList

/-- The number the digits at the front spell, when a hyphen follows them. -/
def digitsBeforeHyphen : Option ℕ → Name → Option ℕ
  | value, character :: rest =>
    if character.isDigit then
      digitsBeforeHyphen (some (value.getD 0 * 10 + (character.toNat - '0'.toNat))) rest
    else if character = '-' then value
    else none
  | _, [] => none

/-- A number of digits that is finite as a double. -/
def finiteNumber (value : ℕ) : Option ℤ := if value < 2 ^ 1024 - 2 ^ 970 then some value else none

/-- The expiration in the name of an operation's state file. -/
def cacheLockOperationExpiration (name : Name) : Option ℤ :=
  let starts := [Operation.reclaim, .release, .renew].map (·.text ++ "-".toList)
  match starts.find? (·.isPrefixOf name) with
  | none => none
  | some start => (digitsBeforeHyphen none (name.drop start.length)).bind finiteNumber

def isCacheLockStateName (name : Name) : Bool :=
  (["owner-", "reclaim-", "release-", "renew-"].any fun start => start.toList.isPrefixOf name) &&
    ".json".toList.isSuffixOf name

/-! ## File operations -/

variable (directory : Option Directory)

def mkdir : Except Failure (Option Directory) :=
  match directory with
  | none => .ok (some [])
  | some _ => .error .alreadyExists

/-- Write a file, only a new one when the flag says so. -/
def writeFile (createNew : Bool) (name : Name) (owner : CacheLockOwner) :
    Except Failure (Option Directory) :=
  match directory with
  | none => .error .notFound
  | some entries =>
    if createNew && entries.any (·.name == name) then .error .alreadyExists
    else .ok (some (entries.filter (·.name != name) ++ [⟨name, true, some owner⟩]))

def readdir : Except Failure Directory :=
  match directory with
  | none => .error .notFound
  | some entries => .ok entries

/-- The entry of a name. -/
def findEntry (name : Name) : Except Failure Entry :=
  match (directory.getD []).find? (·.name == name) with
  | none => .error .notFound
  | some entry => .ok entry

def readFile (name : Name) : Except Failure (Option CacheLockOwner) :=
  (findEntry directory name).map Entry.contents

/-- Rename a file; one of the new name is replaced. -/
def rename (fromName toName : Name) : Except Failure (Option Directory) :=
  (findEntry directory fromName).map fun entry =>
    directory.map fun entries =>
      entries.filter (fun other => other.name != fromName && other.name != toName) ++
        [{ entry with name := toName }]

/-- Remove a file if it is there. -/
def removeFile (name : Name) : Except Failure (Option Directory) :=
  .ok (directory.map fun entries => entries.filter (·.name != name))

/-- Write a file that is already there. -/
def overwriteExistingTextFile (name : Name) (owner : CacheLockOwner) :
    Except Failure (Option Directory) :=
  (findEntry directory name).map fun _ =>
    directory.map fun entries => entries.map fun entry =>
      if entry.name == name then { entry with contents := some owner } else entry

/-- Move the directory to a disposal path of its own. -/
def renameDirectory : Except Failure (Option Directory) :=
  match directory with
  | none => .error .notFound
  | some _ => .ok none

end

/-! ## The machine -/

/-- The runtime whose file system the adapter uses. -/
inductive Runtime where
  | node
  | deno
deriving DecidableEq, Repr

/-- A host: its runtime, and whether it runs on Windows. -/
structure Host where
  runtime : Runtime
  windows : Bool
deriving DecidableEq, Repr

/-- What a call finds at one awaited operation. -/
structure Moment where
  fault : Option Fault
  now : ℤ
  uuid : Name

/-- Where `disposeLockDirectory` returns to. -/
inductive Caller where
  | acquire
  | release
deriving DecidableEq, Repr

/-- The operation a call awaits. -/
inductive Point where
  | idle
  | makeDirectory
  | writeOwner (owner : CacheLockOwner)
  | removeOwner (owner : CacheLockOwner) (failure : Failure)
  | listOwner (owner : CacheLockOwner)
  | removeCompeting (owner : CacheLockOwner)
  | observeOwner
  | readOwner (ownerName : Name)
  | poll
  | writeReclaimer (owner : CacheLockOwner)
  | listReclaimer
  | removeReclaimer
  | claimState (ownerName claimName : Name)
  | readClaim (claimName : Name)
  | restoreClaim (claimName : Name) (owner : CacheLockOwner)
  | disposeState (caller : Caller) (stateName disposalStateName : Name) (disposalExpiresAt : ℤ)
  | disposeDirectory (caller : Caller) (disposalExpiresAt : ℤ)
  | removeDisposal (caller : Caller)
  | holding (owner : CacheLockOwner)
  | renewState (owner : CacheLockOwner) (renewalName : Name)
  | overwriteRenewal (owner : CacheLockOwner) (renewalName : Name)
  | finishRenewal (owner : CacheLockOwner) (renewalName : Name)
  | undoRenewal (owner : CacheLockOwner) (renewalName : Name)
  | releaseState (releaseName : Name) (owner : CacheLockOwner)
  | released
  | failed (failure : Failure)
  | releaseFailed (failure : Failure)
deriving DecidableEq, Repr

/-- One call, from the moment it takes the time its wait for an owner ends. -/
structure Call where
  invalidOwnerExpiresAt : ℤ
  point : Point
deriving DecidableEq, Repr

/-! ## Parts of the loop -/

/-- The operation, or the fault of the moment. -/
def Moment.attempt {α : Type} (moment : Moment) (operation : Except Failure α) :
    Except Failure α :=
  match moment.fault with
  | some fault => .error fault.failure
  | none => operation

/-- An operation on the directory, which a failed one leaves as it is. -/
def Moment.perform (moment : Moment) (directory : Option Directory)
    (operation : Except Failure (Option Directory)) (succeeded : Point)
    (refused : Failure → Point) : Point × Option Directory :=
  match moment.attempt operation with
  | .ok changed => (succeeded, changed)
  | .error failure => (refused failure, directory)

/-- An operation that only reads. -/
def Moment.inspect {α : Type} (moment : Moment) (operation : Except Failure α)
    (succeeded : α → Point) (refused : Failure → Point) : Point :=
  match moment.attempt operation with
  | .ok found => succeeded found
  | .error failure => refused failure

def Moment.expiresAt (moment : Moment) : ℤ := moment.now + cacheLockLifetimeMilliseconds

/-- The path of an operation that starts now. -/
def Moment.operationPath (moment : Moment) (operation : Operation) (token : Name) : Name :=
  cacheLockOperationPath operation token moment.expiresAt moment.uuid

/-- The entries a listing goes through: Deno skips what is no file. -/
def Host.listed (host : Host) (entries : Directory) : Directory :=
  match host.runtime with
  | .node => entries
  | .deno => entries.filter Entry.isFile

/-- The outer `catch`: another owner is observed, every other error is thrown. -/
def caught (failure : Failure) : Point :=
  if failure = .alreadyExists then .observeOwner else .failed failure

/-- A failure that is none of the tolerated ones ends the call. -/
def tolerating (tolerated : List Failure) (next : Point) (failure : Failure) : Point :=
  if failure ∈ tolerated then next else .failed failure

/-- What was observed of the owner. -/
structure CacheLockObservation where
  owner : Option CacheLockOwner
  ownerName : Option Name

/-- The owner of a state file: an operation's file is held until its name says. -/
def observedOwner (ownerName : Name) (owner : Option CacheLockOwner) : Option CacheLockOwner :=
  match cacheLockOperationExpiration ownerName with
  | none => owner
  | some operationExpiration => some
    { expiresAtMilliseconds :=
        max ((owner.map CacheLockOwner.expiresAtMilliseconds).getD 0) operationExpiration
      token := (owner.map CacheLockOwner.token).getD "operation".toList }

/-- The loop after the observation: wait, or reclaim what expired. -/
def Call.observed (call : Call) (moment : Moment) (observation : CacheLockObservation) : Point :=
  let expiresAt := (observation.owner.map CacheLockOwner.expiresAtMilliseconds).getD
    call.invalidOwnerExpiresAt
  if expiresAt ≤ moment.now then
    match observation.ownerName with
    | none => .writeReclaimer ⟨moment.expiresAt, moment.uuid⟩
    | some ownerName =>
      .claimState ownerName (moment.operationPath .reclaim "stale".toList)
  else .poll

/-- `readCacheLockOwner`: a file that is gone has no owner. -/
def readCacheLockOwner (contents : Except Failure (Option CacheLockOwner)) :
    Except Failure (Option CacheLockOwner) :=
  match contents with
  | .error .notFound => .ok none
  | contents => contents

/-- The start of `disposeLockDirectory`. -/
def Moment.dispose (moment : Moment) (caller : Caller) (stateName : Name) : Point :=
  .disposeState caller stateName (moment.operationPath .reclaim "disposal".toList) moment.expiresAt

/-- The end of `disposeLockDirectory`. -/
def Caller.returns : Caller → Point
  | .acquire => .makeDirectory
  | .release => .released

def Caller.throws : Caller → Failure → Point
  | .acquire, failure => .failed failure
  | .release, failure => .releaseFailed failure

def isTransientDirectoryRenameError (host : Host) (failure : Failure) : Bool :=
  (host.windows && failure == .permission) || failure == .busy

def reclaimerName : Name := "owner-empty-reclaimer.json".toList

/-! ## Steps -/

/-- The step of a call at the moment. -/
def Call.step (host : Host) (call : Call) (moment : Moment) (directory : Option Directory) :
    Point × Option Directory :=
  match call.point with
  | .makeDirectory =>
    moment.perform directory (mkdir directory) (.writeOwner ⟨moment.expiresAt, moment.uuid⟩) caught
  | .writeOwner owner =>
    moment.perform directory (writeFile directory false (cacheLockOwnerName owner.token) owner)
      (.listOwner owner) (.removeOwner owner)
  | .removeOwner owner failure =>
    moment.perform directory (removeFile directory (cacheLockOwnerName owner.token))
      (if failure = .notFound then .makeDirectory else caught failure) caught
  | .listOwner owner =>
    (moment.inspect (readdir directory)
      (fun entries =>
        if (host.listed entries).any fun entry =>
            isCacheLockStateName entry.name && entry.name != cacheLockOwnerName owner.token then
          .removeCompeting owner
        else .holding owner)
      caught, directory)
  | .removeCompeting owner =>
    moment.perform directory (removeFile directory (cacheLockOwnerName owner.token))
      .makeDirectory caught
  | .observeOwner =>
    (moment.inspect (readdir directory)
      (fun entries =>
        match (host.listed entries).find? fun entry => isCacheLockStateName entry.name with
        | none => call.observed moment ⟨none, none⟩
        | some entry => .readOwner entry.name)
      (tolerating [.notFound] (call.observed moment ⟨none, none⟩)), directory)
  | .readOwner ownerName =>
    (match readCacheLockOwner (moment.attempt (readFile directory ownerName)) with
      | .error failure => .failed failure
      | .ok owner => call.observed moment ⟨observedOwner ownerName owner, some ownerName⟩,
      directory)
  | .poll => (.makeDirectory, directory)
  | .writeReclaimer owner =>
    moment.perform directory (writeFile directory true reclaimerName owner) .listReclaimer
      (tolerating [.alreadyExists, .notFound] .makeDirectory)
  | .listReclaimer =>
    (moment.inspect (readdir directory)
      (fun entries =>
        if (host.listed entries).any fun entry => entry.name != reclaimerName then .removeReclaimer
        else moment.dispose .acquire reclaimerName)
      .failed, directory)
  | .removeReclaimer =>
    moment.perform directory (removeFile directory reclaimerName) .makeDirectory .failed
  | .claimState ownerName claimName =>
    moment.perform directory (rename directory ownerName claimName) (.readClaim claimName)
      (tolerating [.notFound] .makeDirectory)
  | .readClaim claimName =>
    (match readCacheLockOwner (moment.attempt (readFile directory claimName)) with
      | .error failure => .failed failure
      | .ok none => moment.dispose .acquire claimName
      | .ok (some owner) =>
        if moment.now < owner.expiresAtMilliseconds then .restoreClaim claimName owner
        else moment.dispose .acquire claimName,
      directory)
  | .restoreClaim claimName owner =>
    moment.perform directory (rename directory claimName (cacheLockOwnerName owner.token))
      .makeDirectory (tolerating [.notFound] .makeDirectory)
  | .disposeState caller stateName disposalStateName disposalExpiresAt =>
    moment.perform directory (rename directory stateName disposalStateName)
      (.disposeDirectory caller disposalExpiresAt)
      fun failure => if failure = .notFound then caller.returns else caller.throws failure
  | .disposeDirectory caller disposalExpiresAt =>
    moment.perform directory (renameDirectory directory) (.removeDisposal caller)
      fun failure =>
        if isTransientDirectoryRenameError host failure &&
            moment.now < disposalExpiresAt - cacheLockRenameSafetyMilliseconds then
          .disposeDirectory caller disposalExpiresAt
        else if failure = .notFound then caller.returns
        else caller.throws failure
  | .removeDisposal caller =>
    -- the disposal path is this call's own, so nothing else removes it
    moment.perform directory (.ok directory) caller.returns caller.throws
  | .renewState owner renewalName =>
    moment.perform directory (rename directory (cacheLockOwnerName owner.token) renewalName)
      (.overwriteRenewal owner renewalName) fun _ => .holding owner
  | .overwriteRenewal owner renewalName =>
    moment.perform directory
      (overwriteExistingTextFile directory renewalName ⟨moment.expiresAt, owner.token⟩)
      (.finishRenewal owner renewalName) fun _ => .undoRenewal owner renewalName
  | .finishRenewal owner renewalName =>
    moment.perform directory (rename directory renewalName (cacheLockOwnerName owner.token))
      (.holding owner) fun _ => .undoRenewal owner renewalName
  | .undoRenewal owner renewalName =>
    moment.perform directory (rename directory renewalName (cacheLockOwnerName owner.token))
      (.holding owner) fun _ => .holding owner
  | .releaseState releaseName owner =>
    moment.perform directory (rename directory (cacheLockOwnerName owner.token) releaseName)
      (moment.dispose .release releaseName)
      fun failure => if failure = .notFound then .released else .releaseFailed failure
  | .idle | .holding _ | .released | .failed _ | .releaseFailed _ => (call.point, directory)

/-! ## Many calls -/

/-- The calls of every process on one lock path, and the lock directory if it is there. -/
structure System where
  directory : Option Directory
  call : ℕ → Call

/-- What can happen next. -/
inductive Action where
  /-- A call begins to acquire. -/
  | acquire (process : ℕ) (now : ℤ)
  /-- The operation a call awaits is done. -/
  | step (process : ℕ) (moment : Moment)
  /-- The renewal timer of a held lock fires. -/
  | renew (process : ℕ) (moment : Moment)
  /-- A held lock is released. -/
  | release (process : ℕ) (moment : Moment)
  /-- Whatever else the directory goes through: part of a write, another program. -/
  | elsewhere (directory : Option Directory)

/-- The system after one process goes on. -/
def System.goOn (system : System) (process : ℕ) (point : Point) : System :=
  { system with
    call := Function.update system.call process { system.call process with point := point } }

def System.apply (host : Host) (system : System) : Action → System
  | .acquire process now =>
    if (system.call process).point = .idle then
      { system with
        call := Function.update system.call process
          ⟨now + cacheLockLifetimeMilliseconds, .makeDirectory⟩ }
    else system
  | .step process moment =>
    let stepped := (system.call process).step host moment system.directory
    { (system.goOn process stepped.1) with directory := stepped.2 }
  | .renew process moment =>
    match (system.call process).point with
    | .holding owner =>
      system.goOn process (.renewState owner (moment.operationPath .renew owner.token))
    | _ => system
  | .release process moment =>
    match (system.call process).point with
    | .holding owner =>
      system.goOn process (.releaseState (moment.operationPath .release owner.token) owner)
    | _ => system
  | .elsewhere directory => { system with directory := directory }

def System.run (host : Host) (system : System) (actions : List Action) : System :=
  actions.foldl (System.apply host) system

/-- The system before the first call. -/
def System.start (directory : Option Directory) : System := ⟨directory, fun _ => ⟨0, .idle⟩⟩

/-! ## Failures of acquiring

Two listings of `acquireFileLock` are not guarded: the one after it wrote its owner file and the one
after it wrote the reclaimer's. A call is rejected with a not-found error exactly when the lock
directory is gone at one of these (`step_notFound_iff`, `acquire_notFound_iff`).
-/

variable {host : Host} {call : Call} {moment : Moment} {directory : Option Directory}
  {system : System} {process : ℕ}

/-- The call fails with the error another process caused. -/
def Point.NotFound (point : Point) : Prop := point = .failed .notFound

instance (point : Point) : Decidable point.NotFound := inferInstanceAs (Decidable (_ = _))

/-- The call lists the directory right after it wrote a file of its own there. -/
def Point.listsOwn : Point → Bool
  | .listOwner _ => true
  | .listReclaimer => true
  | _ => false

/-! ## One operation -/

lemma fault_ne_notFound (fault : Fault) : fault.failure ≠ .notFound := by
  cases fault <;> decide

lemma attempt_none {α : Type} {operation : Except Failure α} (h : moment.fault = none) :
    moment.attempt operation = operation := by
  rw [Moment.attempt, h]

/-- An operation that meets no fault fails with a not-found error of its own. -/
lemma attempt_error {α : Type} {operation : Except Failure α} {failure : Failure}
    (h : moment.attempt operation = .error failure) (hfailure : failure = .notFound) :
    operation = .error .notFound ∧ moment.fault = none := by
  subst hfailure
  cases hmoment : moment.fault with
  | some fault =>
    rw [Moment.attempt, hmoment] at h
    exact absurd (Except.error.inj h) (fault_ne_notFound fault)
  | none =>
    rw [attempt_none hmoment] at h
    exact ⟨h, rfl⟩

section
variable {operation : Except Failure (Option Directory)} {succeeded : Point}
  {refused : Failure → Point} (hok : ¬succeeded.NotFound)
include hok

/-- An operation is not the reason when no failure it can have is turned into one. -/
lemma perform_not_notFound
    (hrefused : ∀ failure, (failure = .notFound → operation = .error .notFound) →
      ¬(refused failure).NotFound) :
    ¬(moment.perform directory operation succeeded refused).1.NotFound := by
  unfold Moment.perform
  cases hattempt : moment.attempt operation with
  | ok changed => exact hok
  | error failure => exact hrefused failure fun h => (attempt_error hattempt h).1

lemma perform_other (hfault : ∀ failure, failure ≠ .notFound → ¬(refused failure).NotFound)
    (hother : operation ≠ .error .notFound) :
    ¬(moment.perform directory operation succeeded refused).1.NotFound :=
  perform_not_notFound hok fun failure h => hfault failure fun heq => hother (h heq)

end

lemma inspect_not_notFound {α : Type} {operation : Except Failure α} {succeeded : α → Point}
    {refused : Failure → Point} (hok : ∀ found, ¬(succeeded found).NotFound)
    (hrefused : ∀ failure,
      (failure = .notFound → operation = .error .notFound ∧ moment.fault = none) →
        ¬(refused failure).NotFound) :
    ¬(moment.inspect operation succeeded refused).NotFound := by
  unfold Moment.inspect
  cases hattempt : moment.attempt operation with
  | ok found => exact hok found
  | error failure => exact hrefused failure (attempt_error hattempt)

lemma failed_not_notFound {failure : Failure} (h : failure ≠ .notFound) :
    ¬(Point.failed failure).NotFound := by
  intro hpoint
  exact h (Point.failed.inj hpoint)

lemma caught_not_notFound {failure : Failure} (h : failure ≠ .notFound) :
    ¬(caught failure).NotFound := by
  unfold caught
  split
  · exact Point.noConfusion
  · exact failed_not_notFound h

/-- A guarded operation tolerates that the file is gone. -/
lemma tolerating_not_notFound {tolerated : List Failure} {next : Point} (hnext : ¬next.NotFound)
    (hmem : Failure.notFound ∈ tolerated) (failure : Failure) :
    ¬(tolerating tolerated next failure).NotFound := by
  unfold tolerating
  split
  · exact hnext
  · rename_i hout
    exact failed_not_notFound fun heq => hout (heq ▸ hmem)

lemma observed_not_notFound (observation : CacheLockObservation) :
    ¬(call.observed moment observation).NotFound := by
  unfold Call.observed Point.NotFound
  dsimp only
  split
  · cases observation.ownerName <;> exact Point.noConfusion
  · exact Point.noConfusion

lemma readCacheLockOwner_ne {contents : Except Failure (Option CacheLockOwner)}
    {failure : Failure} (h : readCacheLockOwner contents = .error failure) :
    failure ≠ .notFound := by
  rintro rfl
  unfold readCacheLockOwner at h
  split at h
  · cases h
  · rename_i hne
    exact hne h

/-- A disposal that finds its file or the directory gone just ends. -/
lemma disposal_not_notFound {caller : Caller} {failure : Failure} :
    ¬(if failure = .notFound then caller.returns else caller.throws failure).NotFound := by
  split
  · cases caller <;> exact Point.noConfusion
  · rename_i hne
    cases caller
    · exact failed_not_notFound hne
    · exact Point.noConfusion

/-! ## One step -/

/-- The listings that are not guarded reject the call exactly when the directory is gone. -/
lemma inspect_readdir_notFound {succeeded : Directory → Point} {refused : Failure → Point}
    (hok : ∀ found, ¬(succeeded found).NotFound)
    (hfault : ∀ failure, failure ≠ .notFound → ¬(refused failure).NotFound)
    (hrefused : (refused .notFound).NotFound) :
    (moment.inspect (readdir directory) succeeded refused).NotFound ↔
      directory = none ∧ moment.fault = none := by
  constructor
  · intro h
    by_contra hgone
    apply inspect_not_notFound hok _ h
    intro failure hfailure
    refine hfault failure fun heq => ?_
    obtain ⟨hmissing, hmoment⟩ := hfailure heq
    cases directory with
    | none => exact hgone ⟨rfl, hmoment⟩
    | some entries => cases hmissing
  · rintro ⟨rfl, hmoment⟩
    rw [Moment.inspect, attempt_none hmoment]
    exact hrefused

/-- No other operation is the reason: each tolerates that its file or the directory is gone. -/
lemma step_not_notFound (hpoint : ¬call.point.NotFound) (hlists : call.point.listsOwn = false) :
    ¬(call.step host moment directory).1.NotFound := by
  unfold Call.step
  cases hcall : call.point with
  | makeDirectory =>
    apply perform_other Point.noConfusion fun failure => caught_not_notFound
    -- `mkdir` itself only fails when the directory is there
    cases directory <;> exact nofun
  | writeOwner owner =>
    exact perform_not_notFound Point.noConfusion fun _ _ => Point.noConfusion
  | removeOwner owner failure =>
    apply perform_other _ (fun failure => caught_not_notFound) (by nofun)
    split
    · exact Point.noConfusion
    · rename_i hne
      exact caught_not_notFound hne
  | listOwner owner =>
    rw [hcall] at hlists
    cases hlists
  | removeCompeting owner =>
    exact perform_other Point.noConfusion (fun failure => caught_not_notFound) (by nofun)
  | observeOwner =>
    apply inspect_not_notFound
    · intro entries
      split
      · exact observed_not_notFound _
      · exact Point.noConfusion
    · exact fun failure _ => tolerating_not_notFound (observed_not_notFound _) (by decide) failure
  | readOwner ownerName =>
    dsimp only
    split
    · rename_i heq
      exact failed_not_notFound (readCacheLockOwner_ne heq)
    · exact observed_not_notFound _
  | poll => exact Point.noConfusion
  | writeReclaimer owner =>
    exact perform_not_notFound Point.noConfusion
      fun failure _ => tolerating_not_notFound Point.noConfusion (by decide) failure
  | listReclaimer =>
    rw [hcall] at hlists
    cases hlists
  | removeReclaimer =>
    exact perform_other Point.noConfusion (fun failure => failed_not_notFound) (by nofun)
  | claimState ownerName claimName =>
    exact perform_not_notFound Point.noConfusion
      fun failure _ => tolerating_not_notFound Point.noConfusion (by decide) failure
  | readClaim claimName =>
    dsimp only
    split
    · rename_i heq
      exact failed_not_notFound (readCacheLockOwner_ne heq)
    · exact Point.noConfusion
    · split <;> exact Point.noConfusion
  | restoreClaim claimName owner =>
    exact perform_not_notFound Point.noConfusion
      fun failure _ => tolerating_not_notFound Point.noConfusion (by decide) failure
  | disposeState caller stateName disposalStateName disposalExpiresAt =>
    exact perform_not_notFound Point.noConfusion fun failure _ => disposal_not_notFound
  | disposeDirectory caller disposalExpiresAt =>
    refine perform_not_notFound Point.noConfusion fun failure _ => ?_
    split
    · exact Point.noConfusion
    · exact disposal_not_notFound
  | removeDisposal caller =>
    apply perform_other _ _ (by nofun)
    · cases caller <;> exact Point.noConfusion
    · intro failure hne
      cases caller
      · exact failed_not_notFound hne
      · exact Point.noConfusion
  | renewState owner renewalName =>
    exact perform_not_notFound Point.noConfusion fun _ _ => Point.noConfusion
  | overwriteRenewal owner renewalName =>
    exact perform_not_notFound Point.noConfusion fun _ _ => Point.noConfusion
  | finishRenewal owner renewalName =>
    exact perform_not_notFound Point.noConfusion fun _ _ => Point.noConfusion
  | undoRenewal owner renewalName =>
    exact perform_not_notFound Point.noConfusion fun _ _ => Point.noConfusion
  | releaseState releaseName owner =>
    refine perform_not_notFound Point.noConfusion fun failure _ => ?_
    split <;> exact Point.noConfusion
  | idle => exact Point.noConfusion
  | holding owner => exact Point.noConfusion
  | released => exact Point.noConfusion
  | failed failure => exact fun h => hpoint (hcall.trans h)
  | releaseFailed failure => exact Point.noConfusion

/-- A step rejects a call with a not-found error exactly when it is one of the two listings and
finds no directory. -/
theorem step_notFound_iff : (call.step host moment directory).1.NotFound ↔
    call.point.NotFound ∨
      (call.point.listsOwn = true ∧ directory = none ∧ moment.fault = none) := by
  cases hlists : call.point.listsOwn with
  | false =>
    simp only [Bool.false_eq_true, false_and, or_false]
    by_cases hpoint : call.point.NotFound
    · apply iff_of_true _ hpoint
      unfold Call.step
      rw [show call.point = .failed .notFound from hpoint]
      rfl
    · exact iff_of_false (step_not_notFound hpoint hlists) hpoint
  | true =>
    have hpoint : ¬call.point.NotFound := by
      intro h
      rw [show call.point = .failed .notFound from h] at hlists
      cases hlists
    simp only [hpoint, true_and, false_or]
    unfold Call.step
    cases hcall : call.point with
    | listOwner owner =>
      apply inspect_readdir_notFound _ (fun failure => caught_not_notFound) rfl
      intro entries
      split <;> exact Point.noConfusion
    | listReclaimer =>
      apply inspect_readdir_notFound _ (fun failure => failed_not_notFound) rfl
      intro entries
      split <;> exact Point.noConfusion
    | _ =>
      rw [hcall] at hlists
      cases hlists

/-! ## Every run -/

/-- No listing that is not guarded finds the directory gone. -/
def System.present (system : System) : Action → Prop
  | .step process moment => (system.call process).point.listsOwn = true → moment.fault = none →
      system.directory ≠ none
  | _ => True

/-- At every step of the actions the directory is there for such a listing. -/
def System.AlwaysPresent (host : Host) : System → List Action → Prop
  | _, [] => True
  | system, action :: actions =>
    system.present action ∧ (system.apply host action).AlwaysPresent host actions

/-- Some call was rejected because the directory was gone. -/
def System.Rejects (system : System) : Prop := ∃ process, (system.call process).point.NotFound

lemma update_point (calls : ℕ → Call) (call : Call) (other : ℕ) :
    (Function.update calls process call other).point =
      if other = process then call.point else (calls other).point := by
  by_cases h : other = process
  · subst h
    rw [Function.update_self, if_pos rfl]
  · rw [Function.update_of_ne h, if_neg h]

lemma goOn_point (point : Point) (other : ℕ) : ((system.goOn process point).call other).point =
    if other = process then point else (system.call other).point :=
  update_point system.call _ other

/-- Going on to a point rejects a call as often as the point does, when the one before did not. -/
lemma rejects_of_point {changed : System} {point : Point}
    (hchanged : ∀ other, (changed.call other).point =
      if other = process then point else (system.call other).point)
    (hpoint : point.NotFound ↔ (system.call process).point.NotFound) :
    changed.Rejects ↔ system.Rejects := by
  apply exists_congr
  intro other
  rw [hchanged]
  split
  · rename_i heq
    rw [heq, hpoint]
  · rfl

/-- The process whose step fails is rejected, and no other changes. -/
lemma step_rejects_iff : (system.apply host (.step process moment)).Rejects ↔
    system.Rejects ∨ ¬system.present (.step process moment) := by
  have hpresent : ¬system.present (.step process moment) ↔
      (system.call process).point.listsOwn = true ∧ system.directory = none ∧
        moment.fault = none := by
    unfold System.present
    rw [Classical.not_imp, Classical.not_imp, not_not]
    exact and_congr_right fun _ => And.comm
  have hstep := @step_notFound_iff host (system.call process) moment system.directory
  rw [hpresent]
  constructor
  · rintro ⟨other, hother⟩
    have hpoint : ((system.apply host (.step process moment)).call other).point = _ :=
      goOn_point _ other
    rw [hpoint] at hother
    split at hother
    · exact (hstep.mp hother).imp_left fun h => ⟨process, h⟩
    · exact .inl ⟨other, hother⟩
  · intro h
    have hgone : ∀ other, ((system.call other).point.NotFound ∨ other = process ∧
        ((system.call process).step host moment system.directory).1.NotFound) →
        ((system.apply host (.step process moment)).call other).point.NotFound := by
      intro other hother
      have hpoint : ((system.apply host (.step process moment)).call other).point = _ :=
        goOn_point _ other
      rw [hpoint]
      split
      · rename_i heq
        subst heq
        exact hother.elim (fun hcall => hstep.mpr (.inl hcall)) And.right
      · rename_i hne
        exact hother.resolve_right fun hcall => hne hcall.1
    rcases h with ⟨other, hother⟩ | hlists
    · exact ⟨other, hgone other (.inl hother)⟩
    · exact ⟨process, hgone process (.inr ⟨rfl, hstep.mpr (.inr hlists)⟩)⟩

/-- An action has a call rejected exactly when it is such a listing without the directory. -/
lemma apply_rejects_iff {action : Action} :
    (system.apply host action).Rejects ↔ system.Rejects ∨ ¬system.present action := by
  have hother : ∀ {changed : System}, (changed.Rejects ↔ system.Rejects) →
      (changed.Rejects ↔ system.Rejects ∨ ¬True) := by
    intro changed h
    rw [h, not_true, or_false]
  cases action with
  | step process moment => exact step_rejects_iff
  | acquire process now =>
    apply hother
    rw [System.apply]
    split
    · rename_i hidle
      apply rejects_of_point (update_point system.call _)
      rw [hidle]
      exact iff_of_false Point.noConfusion Point.noConfusion
    · rfl
  | renew process moment =>
    apply hother
    rw [System.apply]
    split
    · rename_i owner hholding
      apply rejects_of_point (goOn_point _)
      rw [hholding]
      exact iff_of_false Point.noConfusion Point.noConfusion
    · rfl
  | release process moment =>
    apply hother
    rw [System.apply]
    split
    · rename_i owner hholding
      apply rejects_of_point (goOn_point _)
      rw [hholding]
      exact iff_of_false Point.noConfusion Point.noConfusion
    · rfl
  | elsewhere directory => exact hother .rfl

/-- Along a run a call is rejected so exactly when some listing finds the directory gone. -/
lemma run_rejects_iff (actions : List Action) :
    (system.run host actions).Rejects ↔
      system.Rejects ∨ ¬system.AlwaysPresent host actions := by
  induction actions generalizing system with
  | nil => exact ⟨.inl, fun h => h.resolve_right fun hfalse => hfalse trivial⟩
  | cons action actions ih =>
    show ((system.apply host action).run host actions).Rejects ↔ _
    rw [ih, apply_rejects_iff, or_assoc, ← not_and_or]
    rfl

/-- A run has some call rejected with a not-found error exactly when one of its listings right
after a call wrote its own file finds the directory gone. -/
theorem acquire_notFound_iff (host : Host) (directory : Option Directory)
    (actions : List Action) :
    (∃ process, (((System.start directory).run host actions).call process).point.NotFound) ↔
      ¬(System.start directory).AlwaysPresent host actions := by
  have hstart : ¬(System.start directory).Rejects := by
    rintro ⟨process, hprocess⟩
    exact Point.noConfusion hprocess
  exact (run_rejects_iff actions).trans (or_iff_right hstart)

/-! ## The interleaving -/

/-- The operation a process awaits is done, without a fault, at the time. -/
def done (process : ℕ) (now : ℤ) (uuid : Char) : Action := .step process ⟨none, now, [uuid]⟩

/-- Process 0 waits for the lock of process 2. When that one releases it, process 1 makes the
directory anew. Process 0 has waited for longer than a lease, so it takes the empty directory for an
abandoned one and moves it away, after process 1 wrote its owner file and before process 1 lists the
directory. -/
def interleaving : List Action :=
  [.acquire 2 0, done 2 0 'a', done 2 1 'b', done 2 2 'c',
    .acquire 0 3, done 0 3 'd', done 0 4 'e', done 0 5 'f',
    -- the lock is released
    .release 2 ⟨none, 31000, ['g']⟩, done 2 31000 'h', done 2 31001 'i', done 2 31002 'j',
    done 2 31003 'k',
    -- process 1 makes the directory; process 0 polls again, sees it there, and empty
    .acquire 1 31003, done 1 31004 'l', done 0 31005 'm', done 0 31005 'n', done 0 31006 'o',
    -- process 0 writes the reclaimer's file, finds no other and claims it for the disposal
    done 0 31007 'p', done 0 31008 'q', done 0 31009 'r',
    -- process 1 writes its owner file, process 0 moves the directory, process 1 lists it
    done 1 31009 's', done 0 31010 't', done 1 31011 'u']

/-- The listing after the owner file rejects process 1, on either runtime. -/
theorem acquire_interleaving :
    (((System.start none).run ⟨.node, false⟩ interleaving).call 1).point = .failed .notFound ∧
      (((System.start none).run ⟨.deno, false⟩ interleaving).call 1).point = .failed .notFound := by
  decide +kernel

end Oseo.CacheLock
