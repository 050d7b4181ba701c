/-
# A collection of extended keys

`collect_until` asks the first connected device for the paths of the plan, one after the other,
until its caller tells it to stop or a path fails that every device lets be fetched. The caller
hears of each key as it comes, and gets the keys and the warnings at the end.

A device answers as it pleases, and what it answers may depend on everything it was asked
before. Its `transcript` is what it would answer to the whole plan. A collection reads the
transcript from its start and nothing else (`collectUntil_accounts`): where it stops, and what
it returns, is decided by the answers read up to there and by the caller.
-/

import Bip138.Front.PathPlan

namespace Bip138

open Bip138.Rust Bip138.Ll

inductive XpubWarning
  | failed (cause : FetchFailed)
  | timedOut (device : DeviceKind) (path : DerivationPath)

structure XpubCollection where
  xpubs : List Xpub
  warnings : List XpubWarning

structure FetchedXpub where
  fingerprint : Fingerprint
  xpub : Xpub

/-- A minute, in milliseconds, as all times here. -/
def promptTimeout : ℕ := 60000

def deviceTimeout : DeviceKind → ℕ
  | .ledger | .specterSimulator | .ledgerSimulator => 500
  | .bitBox02 => 1000
  | .coldcard | .specter | .jade => 3000

def xpubTimeout (kind : DeviceKind) (expect : Expect) (prompt : Bool) : ℕ :=
  match expect, prompt with
  | .canFail, true => promptTimeout
  | .promptUser, _ => promptTimeout
  | .mustFetch, _ | .canFail, _ => deviceTimeout kind

def displayXpub (kind : DeviceKind) (expect : Expect) : Bool :=
  match kind, expect with
  | .ledger, .promptUser | .ledger, .canFail | .ledgerSimulator, .promptUser
  | .ledgerSimulator, .canFail => true
  | _, _ => false

/-- A connected device, whose state is `δ`. -/
structure Device (δ : Type) where
  deviceKind : DeviceKind
  display : Bool → δ → δ
  getMasterFingerprint : δ → Except String Fingerprint × δ
  /-- Asked on a thread of its own, for at most so long. -/
  getExtendedPubkey : DerivationPath → ℕ → δ → DeviceAnswer Xpub × δ

/-- What a caller is told. -/
inductive FetchLog
  | fetchingOn (device : DeviceKind)
  | unlocking (path : DerivationPath) (timeout : ℕ)
  | unlocked
  | fetching (path : DerivationPath) (device : DeviceKind) (expect : Expect) (timeout : ℕ)
  | fail (path : DerivationPath)
  | timedOut (path : DerivationPath)

/-- The callbacks of a collection, whose state is `σ`. -/
structure Caller (σ : Type) where
  log : FetchLog → σ → σ
  onXpub : DerivationPath → Xpub → σ → σ
  shouldStop : σ → Bool × σ

variable {σ δ : Type}

section Code

def bitboxUnlockPath (network : Network) : Exec FetchFailed DerivationPath :=
  match ((commonDerivationPaths .bitBox02 network).map Prod.fst).find? fun path =>
      pathPurpose path = some 48 with
  | some path => .ok path
  | none => .abort .expect

def unlockBitbox (device : Device δ) (network : Network) (caller : Caller σ) (host : σ)
    (state : δ) : Exec FetchFailed Unit × σ × δ :=
  if device.deviceKind ≠ .bitBox02 then (.ok (), host, state)
  else match bitboxUnlockPath network with
    | .error fault => (.error fault, host, state)
    | .ok path =>
        let host := caller.log (.unlocking path promptTimeout) host
        match device.getExtendedPubkey path promptTimeout state with
        | (.xpub _, state) => (.ok (), caller.log .unlocked host, state)
        | (.failed error, state) => (.fail ⟨.bitBox02, path, .promptUser, error⟩, host, state)
        | (.timedOut, state) => (.fail ⟨.bitBox02, path, .promptUser, "Timed out"⟩, host, state)

/-- Set the display, and ask. -/
def Device.ask (device : Device δ) (path : DerivationPath) (expect : Expect) (timeout : ℕ)
    (state : δ) : DeviceAnswer Xpub × δ :=
  let state := device.display (displayXpub device.deviceKind expect) state
  device.getExtendedPubkey path timeout state

namespace XpubCollector

/-- The loop of `collectUntil` over the paths. -/
def collectPaths (collector : XpubCollector) (device : Device δ) (caller : Caller σ) :
    List (DerivationPath × Expect) → BTreeSet Xpub → List XpubWarning → σ → δ →
      Exec FetchFailed (BTreeSet Xpub × List XpubWarning) × σ × δ
  | [], xpubs, warnings, host, state => (.ok (xpubs, warnings), host, state)
  | (path, expect) :: rest, xpubs, warnings, host, state =>
      match caller.shouldStop host with
      | (true, host) => (.ok (xpubs, warnings), host, state)
      | (false, host) =>
          let timeout := xpubTimeout device.deviceKind expect collector.prompt
          let host := caller.log (.fetching path device.deviceKind expect timeout) host
          match device.ask path expect timeout state with
          | (.xpub xpub, state) =>
              collectPaths collector device caller rest (xpubs.insert xpub) warnings
                (caller.onXpub path xpub host) state
          | (.failed error, state) =>
              let host := caller.log (.fail path) host
              let failed : FetchFailed := ⟨device.deviceKind, path, expect, error⟩
              match expect with
              | .mustFetch => (.fail failed, host, state)
              | .promptUser | .canFail =>
                  collectPaths collector device caller rest xpubs (warnings ++ [.failed failed])
                    host state
          | (.timedOut, state) =>
              let host := caller.log (.timedOut path) host
              let failed : FetchFailed := ⟨device.deviceKind, path, expect, "Timed out"⟩
              match expect with
              | .mustFetch => (.fail failed, host, state)
              | .promptUser | .canFail =>
                  collectPaths collector device caller rest xpubs
                    (warnings ++ [.timedOut device.deviceKind path]) host state

/-- Collect from the first device that is listed; listing may fail, and `state` is that of
the device behind it. -/
def collectUntil (collector : XpubCollector) (list : Network → Option (List (Device δ)))
    (caller : Caller σ) (host : σ) (state : δ) : Exec FetchFailed XpubCollection × σ × δ :=
  match list collector.network with
  | none | some [] => (.ok ⟨[], []⟩, host, state)
  | some (device :: _) =>
      let paths := collector.paths device.deviceKind
      let host := caller.log (.fetchingOn device.deviceKind) host
      match unlockBitbox device collector.network caller host state with
      | (.error fault, host, state) => (.error fault, host, state)
      | (.ok (), host, state) =>
          match collector.collectPaths device caller paths .empty [] host state with
          | (.error fault, host, state) => (.error fault, host, state)
          | (.ok (xpubs, warnings), host, state) => (.ok ⟨xpubs.toList, warnings⟩, host, state)

/-- The same caller, which does not stop a collection. -/
def neverStops (caller : Caller σ) : Caller σ :=
  { caller with shouldStop := fun host => (false, host) }

def collect (collector : XpubCollector) (list : Network → Option (List (Device δ)))
    (caller : Caller σ) (host : σ) (state : δ) : Exec FetchFailed XpubCollection × σ × δ :=
  collector.collectUntil list (neverStops caller) host state

end XpubCollector

def fetchPathExpect (kind : DeviceKind) (network : Network) (path : DerivationPath) : Expect :=
  let common := (commonDerivationPaths kind network).any fun common => common.1 = path
  match kind, common with
  | .ledger, false | .ledgerSimulator, false | .bitBox02, false => .promptUser
  | _, _ => commonDerivationPathExpect kind path

def fetchFirstOriginXpubAtPath (path : DerivationPath) (network : Network)
    (list : Network → Option (List (Device δ))) (caller : Caller σ) (host : σ) (state : δ) :
    Exec FetchFailed (Option FetchedXpub) × σ × δ :=
  match list network with
  | none | some [] => (.ok none, host, state)
  | some (device :: _) =>
      let expect := fetchPathExpect device.deviceKind network path
      let host := caller.log (.fetchingOn device.deviceKind) host
      match unlockBitbox device network caller host state with
      | (.error fault, host, state) => (.error fault, host, state)
      | (.ok (), host, state) => match device.getMasterFingerprint state with
          | (.error error, state) => (.fail ⟨device.deviceKind, path, expect, error⟩, host, state)
          | (.ok fingerprint, state) =>
              let host := caller.log (.fetching path device.deviceKind expect promptTimeout) host
              match device.ask path expect promptTimeout state with
              | (.xpub xpub, state) => (.ok (some ⟨fingerprint, xpub⟩), host, state)
              | (.failed error, state) =>
                  (.fail ⟨device.deviceKind, path, expect, error⟩, host, state)
              | (.timedOut, state) =>
                  (.fail ⟨device.deviceKind, path, expect, "Timed out"⟩, host, state)

def fetchFirstXpubAtPath (path : DerivationPath) (network : Network)
    (list : Network → Option (List (Device δ))) (caller : Caller σ) (host : σ) (state : δ) :
    Exec FetchFailed (Option Xpub) × σ × δ :=
  match fetchFirstOriginXpubAtPath path network list caller host state with
  | (.error fault, host, state) => (.error fault, host, state)
  | (.ok fetched, host, state) => (.ok (fetched.map (·.xpub)), host, state)

end Code

/-! ## What a device answers -/

/-- A path that was asked for, and what the device answered. -/
structure Asked where
  path : DerivationPath
  expect : Expect
  answer : DeviceAnswer Xpub

namespace Asked

variable (kind : DeviceKind)

def granted (asked : Asked) : Option Xpub :=
  match asked.answer with
  | .xpub xpub => some xpub
  | .failed _ | .timedOut => none

/-- The failure that ends a collection: every device lets the path be fetched, and this one
did not. -/
def fatal (asked : Asked) : Option FetchFailed :=
  match asked.expect, asked.answer with
  | .mustFetch, .failed error => some ⟨kind, asked.path, .mustFetch, error⟩
  | .mustFetch, .timedOut => some ⟨kind, asked.path, .mustFetch, "Timed out"⟩
  | .mustFetch, .xpub _ | .promptUser, _ | .canFail, _ => none

/-- The failure the user is only warned of. -/
def warning (asked : Asked) : Option XpubWarning :=
  match asked.expect, asked.answer with
  | .promptUser, .failed error | .canFail, .failed error =>
      some (.failed ⟨kind, asked.path, asked.expect, error⟩)
  | .promptUser, .timedOut | .canFail, .timedOut => some (.timedOut kind asked.path)
  | .mustFetch, _ | .promptUser, .xpub _ | .canFail, .xpub _ => none

end Asked

section Transcript

variable (device : Device δ) (prompt : Bool)

/-- What the device answers when it is asked for all of the paths, one after the other. -/
def Device.transcript (device : Device δ) (prompt : Bool) :
    List (DerivationPath × Expect) → δ → List Asked
  | [], _ => []
  | (path, expect) :: rest, state =>
      let timeout := xpubTimeout device.deviceKind expect prompt
      let (answer, state) := device.ask path expect timeout state
      ⟨path, expect, answer⟩ :: transcript device prompt rest state

/-- The state the device is in when these paths were asked for. -/
def Device.after (asked : List Asked) (state : δ) : δ :=
  asked.foldl (fun state asked =>
    (device.ask asked.path asked.expect
      (xpubTimeout device.deviceKind asked.expect prompt) state).2) state

/-- What the caller goes through when a path is asked for, from the question whether to stop
to what it is told of the answer. -/
def Caller.hears (caller : Caller σ) (kind : DeviceKind) (host : σ) (asked : Asked) : σ :=
  let timeout := xpubTimeout kind asked.expect prompt
  let host := caller.log (.fetching asked.path kind asked.expect timeout) (caller.shouldStop host).2
  match asked.answer with
  | .xpub xpub => caller.onXpub asked.path xpub host
  | .failed _ => caller.log (.fail asked.path) host
  | .timedOut => caller.log (.timedOut asked.path) host

/-- The plan is asked for in its order. -/
theorem Device.map_transcript (paths : List (DerivationPath × Expect)) (state : δ) :
    (device.transcript prompt paths state).map (fun asked => (asked.path, asked.expect)) =
      paths := by
  induction paths generalizing state with
  | nil => rfl
  | cons item paths ih => exact congrArg (item :: ·) (ih _)

end Transcript

/-! ## What a collection ends with -/

/-- How a collection ends, when some paths of the transcript were asked for and the others were
not: all were asked for, or the caller stops it before one that is left, or the last one had to
be fetched. -/
inductive Ends (caller : Caller σ) (kind : DeviceKind) (xpubs : BTreeSet Xpub)
    (warnings : List XpubWarning) (heard : σ) (asked rest : List Asked) :
    Exec FetchFailed (BTreeSet Xpub × List XpubWarning) → σ → Prop
  | complete (hrest : rest = []) (hsoft : ∀ item ∈ asked, item.fatal kind = none) :
      Ends caller kind xpubs warnings heard asked rest
        (.ok (xpubs.extend (asked.filterMap (·.granted)),
          warnings ++ asked.filterMap (·.warning kind))) heard
  | stopped (hrest : rest ≠ []) (hstop : (caller.shouldStop heard).1 = true)
      (hsoft : ∀ item ∈ asked, item.fatal kind = none) :
      Ends caller kind xpubs warnings heard asked rest
        (.ok (xpubs.extend (asked.filterMap (·.granted)),
          warnings ++ asked.filterMap (·.warning kind))) (caller.shouldStop heard).2
  | failed (earlier : List Asked) (last : Asked) (cause : FetchFailed)
      (hasked : asked = earlier ++ [last]) (hsoft : ∀ item ∈ earlier, item.fatal kind = none)
      (hfatal : last.fatal kind = some cause) :
      Ends caller kind xpubs warnings heard asked rest (.fail cause) heard

section Accounts

open XpubCollector

variable {caller : Caller σ} {kind : DeviceKind} {xpubs : BTreeSet Xpub}
  {warnings : List XpubWarning} {heard host : σ} {state : δ} {asked rest : List Asked}
  {device : Device δ} {collector : XpubCollector}
  {result : Exec FetchFailed (BTreeSet Xpub × List XpubWarning)} {host' : σ}

/-- A first path that is no reason to end is accounted for along with the others. -/
theorem Ends.cons {item : Asked} (hsoft : item.fatal kind = none)
    (hends : Ends caller kind (xpubs.extend item.granted.toList)
      (warnings ++ (item.warning kind).toList) heard asked rest result host') :
    Ends caller kind xpubs warnings heard (item :: asked) rest result host' := by
  have hcollected :
      ((xpubs.extend item.granted.toList).extend (asked.filterMap (·.granted)),
        (warnings ++ (item.warning kind).toList) ++ asked.filterMap (·.warning kind)) =
      (xpubs.extend ((item :: asked).filterMap (·.granted)),
        warnings ++ (item :: asked).filterMap (·.warning kind)) := by
    rw [List.filterMap_cons, List.filterMap_cons]
    cases item.granted <;> cases item.warning kind <;>
      simp [BTreeSet.extend]
  cases hends with
  | complete hrest hasked =>
      rw [hcollected]
      exact .complete hrest (List.forall_mem_cons.mpr ⟨hsoft, hasked⟩)
  | stopped hrest hstop hasked =>
      rw [hcollected]
      exact .stopped hrest hstop (List.forall_mem_cons.mpr ⟨hsoft, hasked⟩)
  | failed earlier last cause hasked hearlier hfatal =>
      rw [hasked]
      exact .failed (item :: earlier) last cause rfl (List.forall_mem_cons.mpr ⟨hsoft, hearlier⟩)
        hfatal

/-- What the loop does with one path: it is stopped, or it asks, and then goes on or fails. -/
theorem collectPaths_cons (collector : XpubCollector) (device : Device δ) (caller : Caller σ)
    (path : DerivationPath) (expect : Expect) (plan : List (DerivationPath × Expect))
    (xpubs : BTreeSet Xpub) (warnings : List XpubWarning) (host : σ) (state : δ) :
    (∃ host', caller.shouldStop host = (true, host') ∧
      collector.collectPaths device caller ((path, expect) :: plan) xpubs warnings host state =
        (.ok (xpubs, warnings), host', state)) ∨
    ∃ answer state', device.ask path expect (xpubTimeout device.deviceKind expect collector.prompt)
        state = (answer, state') ∧
      (caller.shouldStop host).1 = false ∧
      ((∃ cause, (Asked.mk path expect answer).fatal device.deviceKind = some cause ∧
        collector.collectPaths device caller ((path, expect) :: plan) xpubs warnings host state =
          (.fail cause, caller.hears collector.prompt device.deviceKind host
            ⟨path, expect, answer⟩, state')) ∨
      ((Asked.mk path expect answer).fatal device.deviceKind = none ∧
        collector.collectPaths device caller ((path, expect) :: plan) xpubs warnings host state =
          collector.collectPaths device caller plan
            (xpubs.extend (Asked.mk path expect answer).granted.toList)
            (warnings ++ ((Asked.mk path expect answer).warning device.deviceKind).toList)
            (caller.hears collector.prompt device.deviceKind host ⟨path, expect, answer⟩)
            state')) := by
  rw [collectPaths]
  rcases hstop : caller.shouldStop host with ⟨_ | _, host'⟩
  · right
    rcases hask : device.ask path expect (xpubTimeout device.deviceKind expect collector.prompt)
      state with ⟨answer, state'⟩
    refine ⟨answer, state', rfl, rfl, ?_⟩
    dsimp only
    rw [hask]
    cases answer with
    | xpub xpub =>
        right
        cases expect <;> simp [Asked.fatal, Asked.granted, Asked.warning, Caller.hears, hstop,
          BTreeSet.extend]
    | failed error =>
        cases expect <;> simp [Asked.fatal, Asked.granted, Asked.warning, Caller.hears, hstop,
          BTreeSet.extend]
    | timedOut =>
        cases expect <;> simp [Asked.fatal, Asked.granted, Asked.warning, Caller.hears, hstop,
          BTreeSet.extend]
  · exact .inl ⟨host', rfl, rfl⟩

/-- The caller lets every one of these paths be asked for. -/
def LetsAsk (caller : Caller σ) (kind : DeviceKind) (prompt : Bool) (host : σ)
    (asked : List Asked) : Prop :=
  ∀ before item after, asked = before ++ item :: after →
    (caller.shouldStop (before.foldl (caller.hears prompt kind) host)).1 = false

theorem LetsAsk.cons {prompt : Bool} {item : Asked} (hstop : (caller.shouldStop host).1 = false)
    (hrest : LetsAsk caller kind prompt (caller.hears prompt kind host item) asked) :
    LetsAsk caller kind prompt host (item :: asked) := by
  intro before other after hsplit
  cases before with
  | nil => exact hstop
  | cons first before =>
      rw [List.cons_append, List.cons.injEq] at hsplit
      obtain ⟨rfl, hsplit⟩ := hsplit
      exact hrest before other after hsplit

theorem letsAsk_nil {prompt : Bool} : LetsAsk caller kind prompt host [] :=
  fun before _ _ hsplit =>
    absurd hsplit.symm (List.append_ne_nil_of_right_ne_nil before (List.cons_ne_nil _ _))

/-- The loop reads the transcript of the plan from its start, and ends as it is told by what
it has read. -/
theorem collectPaths_accounts (collector : XpubCollector) (device : Device δ) (caller : Caller σ)
    (plan : List (DerivationPath × Expect)) (xpubs : BTreeSet Xpub) (warnings : List XpubWarning)
    (host : σ) (state : δ) :
    ∃ asked rest result host',
      device.transcript collector.prompt plan state = asked ++ rest ∧
      collector.collectPaths device caller plan xpubs warnings host state =
        (result, host', device.after collector.prompt asked state) ∧
      LetsAsk caller device.deviceKind collector.prompt host asked ∧
      Ends caller device.deviceKind xpubs warnings
        (asked.foldl (caller.hears collector.prompt device.deviceKind) host) asked rest result
        host' := by
  induction plan generalizing xpubs warnings host state with
  | nil =>
      have hends : Ends caller device.deviceKind xpubs warnings host [] [] _ host :=
        .complete rfl fun _ hitem => absurd hitem List.not_mem_nil
      rw [List.filterMap_nil, List.filterMap_nil, List.append_nil] at hends
      exact ⟨[], [], _, host, rfl, rfl, letsAsk_nil, hends⟩
  | cons item plan ih =>
      obtain ⟨path, expect⟩ := item
      rcases collectPaths_cons collector device caller path expect plan xpubs warnings host state
        with ⟨host', hstop, hrun⟩ |
          ⟨answer, state', hask, hstop, ⟨cause, hfatal, hrun⟩ | ⟨hsoft, hrun⟩⟩
      · have hends : Ends caller device.deviceKind xpubs warnings host []
            (device.transcript collector.prompt ((path, expect) :: plan) state) _
            (caller.shouldStop host).2 :=
          .stopped (by rw [Device.transcript]; exact List.cons_ne_nil _ _) (by rw [hstop])
            fun _ hitem => absurd hitem List.not_mem_nil
        rw [List.filterMap_nil, List.filterMap_nil, List.append_nil, hstop] at hends
        exact ⟨[], _, _, host', rfl, hrun, letsAsk_nil, hends⟩
      · refine ⟨[⟨path, expect, answer⟩], device.transcript collector.prompt plan state', _, _, ?_,
          ?_, letsAsk_nil.cons hstop, .failed [] _ cause rfl ?_ hfatal⟩
        · rw [Device.transcript, hask]
          rfl
        · rw [hrun, Device.after, List.foldl_cons, List.foldl_cons, hask]
          rfl
        · exact fun _ hitem => absurd hitem List.not_mem_nil
      · obtain ⟨asked, rest, result, host', htranscript, hrest, hlets, hends⟩ :=
          ih (xpubs.extend (Asked.mk path expect answer).granted.toList)
            (warnings ++ ((Asked.mk path expect answer).warning device.deviceKind).toList)
            (caller.hears collector.prompt device.deviceKind host ⟨path, expect, answer⟩) state'
        refine ⟨⟨path, expect, answer⟩ :: asked, rest, result, host', ?_, ?_, hlets.cons hstop,
          hends.cons hsoft⟩
        · rw [Device.transcript, hask]
          exact congrArg (_ :: ·) htranscript
        · rw [hrun, hrest, Device.after, Device.after, List.foldl_cons, hask]

/-- What is handed out of what the loop collected. -/
def collected (outcome : BTreeSet Xpub × List XpubWarning) : XpubCollection :=
  ⟨outcome.1.toList, outcome.2⟩

/-- With a device that is unlocked, a collection is a run over the plan. -/
theorem collectUntil_of_collectPaths {list : Network → Option (List (Device δ))}
    {others : List (Device δ)} {host' later : σ} {state' state'' : δ}
    {outcome : Exec FetchFailed (BTreeSet Xpub × List XpubWarning)}
    (hlist : list collector.network = some (device :: others))
    (hunlock : unlockBitbox device collector.network caller
      (caller.log (.fetchingOn device.deviceKind) host) state = (.ok (), host', state'))
    (hrun : collector.collectPaths device caller (collector.paths device.deviceKind) .empty []
      host' state' = (outcome, later, state'')) :
    collector.collectUntil list caller host state = (outcome.map collected, later, state'') := by
  rw [collectUntil, hlist]
  dsimp only
  rw [hunlock]
  dsimp only
  rw [hrun]
  rcases outcome with fault | ⟨xpubs, warnings⟩
  · rfl
  · rfl

/-- A collection is told by what it has read. Whatever the device answers and the caller does,
the paths that are asked for are the plan from its start; the caller lets each of them be asked
for and hears of nothing else; the keys are those the device granted, the warnings are of the
paths it did not grant, in their order; and the collection fails exactly at the first path the
device had to grant and did not. -/
theorem collectUntil_accounts {list : Network → Option (List (Device δ))}
    {others : List (Device δ)} {host' : σ} {state' : δ}
    (hlist : list collector.network = some (device :: others))
    (hunlock : unlockBitbox device collector.network caller
      (caller.log (.fetchingOn device.deviceKind) host) state = (.ok (), host', state')) :
    ∃ asked rest outcome later,
      device.transcript collector.prompt (collector.paths device.deviceKind) state' =
        asked ++ rest ∧
      LetsAsk caller device.deviceKind collector.prompt host' asked ∧
      Ends caller device.deviceKind .empty []
        (asked.foldl (caller.hears collector.prompt device.deviceKind) host') asked rest outcome
        later ∧
      collector.collectUntil list caller host state =
        (outcome.map collected, later, device.after collector.prompt asked state') := by
  obtain ⟨asked, rest, outcome, later, htranscript, hrun, hlets, hends⟩ :=
    collectPaths_accounts collector device caller (collector.paths device.deviceKind) .empty []
      host' state'
  exact ⟨asked, rest, outcome, later, htranscript, hlets, hends,
    collectUntil_of_collectPaths hlist hunlock hrun⟩

end Accounts

namespace Sample

/-- A Ledger that grants the first path it is asked for, and refuses every other. -/
def tiredLedger : Device ℕ where
  deviceKind := .ledger
  display _ state := state
  getMasterFingerprint state := (.ok masterFingerprint, state)
  getExtendedPubkey _ _ state := (if state = 0 then .xpub xkey else .failed "refused", state + 1)

def oneLedger (_ : Network) : Option (List (Device ℕ)) := some [tiredLedger]

/-- A caller that counts what it is told, and has enough after three times. -/
def countingCaller : Caller ℕ where
  log _ host := host + 1
  onXpub _ _ host := host + 1
  shouldStop host := (decide (3 ≤ host), host)

def sampleCollector : XpubCollector := .new samplePaths .testnet

end Sample

open Sample in
/-- The Ledger that tires, and the caller that has enough. -/
theorem collectUntil_accounts_tiredLedger :
    ∃ asked rest outcome later,
      tiredLedger.transcript false (sampleCollector.paths .ledger) 0 = asked ++ rest ∧
      LetsAsk countingCaller .ledger false 1 asked ∧
      Ends countingCaller .ledger .empty []
        (asked.foldl (countingCaller.hears false .ledger) 1) asked rest outcome later ∧
      sampleCollector.collectUntil oneLedger countingCaller 0 0 =
        (outcome.map collected, later, tiredLedger.after false asked 0) := by
  have hlist : oneLedger sampleCollector.network = some (tiredLedger :: []) := rfl
  have hunlock : unlockBitbox tiredLedger sampleCollector.network countingCaller
      (countingCaller.log (.fetchingOn tiredLedger.deviceKind) 0) 0 = (.ok (), 1, 0) := rfl
  exact collectUntil_accounts hlist hunlock

/-! ## Unlocking -/

section Unlocking

variable {caller : Caller σ} {host : σ} {state : δ} {device : Device δ} {network : Network}

theorem exists_bitboxUnlockPath (network : Network) :
    ∃ path, bitboxUnlockPath network = .ok path ∧
      path ∈ Ll.commonDerivationPaths (coinType network) ∧
      commonDerivationPathExpect .bitBox02 path = .mustFetch := by
  cases network <;> exact ⟨_, rfl, by decide +kernel, by decide +kernel⟩

/-- Unlocking never panics: the common paths have one to unlock with. -/
theorem returns_unlockBitbox (device : Device δ) (network : Network) (caller : Caller σ) (host : σ)
    (state : δ) : (unlockBitbox device network caller host state).1.Returns := by
  obtain ⟨path, hpath, -⟩ := exists_bitboxUnlockPath network
  rw [unlockBitbox, hpath]
  by_cases hkind : device.deviceKind ≠ .bitBox02
  · rw [if_pos hkind]
    exact Exec.returns_ok _
  · rw [if_neg hkind]
    dsimp only
    rcases device.getExtendedPubkey path promptTimeout state with ⟨_ | _ | _, state'⟩
    · exact Exec.returns_ok _
    · exact Exec.returns_fail _
    · exact Exec.returns_fail _

end Unlocking

/-! ## What is always planned -/

/-- A path that is planned is planned once. -/
theorem XpubCollector.count_paths_eq_one_iff {collector : XpubCollector} {kind : DeviceKind}
    {path : DerivationPath} :
    ((collector.paths kind).map Prod.fst).count path = 1 ↔
      path ∈ Ll.commonDerivationPaths (coinType collector.network) ∨
        path ∈ collector.derivPaths := by
  rw [← @mem_map_fst_paths_iff collector kind]
  refine ⟨fun honce => List.count_pos_iff.mp (honce ▸ Nat.one_pos), fun hpath => ?_⟩
  exact List.count_eq_one_of_mem (nodup_map_fst_paths collector kind) hpath

/-- Whatever the device and the network, a path is planned that every device lets be fetched. -/
theorem XpubCollector.exists_mustFetch_mem_paths (collector : XpubCollector) (kind : DeviceKind) :
    ∃ path, (path, .mustFetch) ∈ collector.paths kind := by
  refine ⟨[hardened 84, hardened (coinType collector.network), hardened 0], ?_⟩
  rw [mem_paths_iff, getElem?_pathMap, if_pos]
  · cases kind <;> rfl
  · cases collector.network <;> decide +kernel

/-! ## Asking for one path -/

section OnePath

/-- With a device at hand a path is fetched or refused, never passed over. -/
theorem fetchFirstOriginXpubAtPath_returns {list : Network → Option (List (Device δ))}
    {network : Network} {device : Device δ} {others : List (Device δ)}
    (hlist : list network = some (device :: others)) (path : DerivationPath) (caller : Caller σ)
    (host : σ) (state : δ) :
    (∃ fetched, (fetchFirstOriginXpubAtPath path network list caller host state).1 =
      .ok (some fetched)) ∨
    ∃ cause, (fetchFirstOriginXpubAtPath path network list caller host state).1 = .fail cause := by
  rw [fetchFirstOriginXpubAtPath, hlist]
  dsimp only
  have hreturns := returns_unlockBitbox device network caller
    (caller.log (.fetchingOn device.deviceKind) host) state
  generalize unlockBitbox device network caller (caller.log (.fetchingOn device.deviceKind) host)
    state = unlocking at hreturns ⊢
  obtain ⟨outcome, host', state'⟩ := unlocking
  obtain ⟨unlocked, rfl⟩ | ⟨cause, rfl⟩ := hreturns
  · dsimp only
    rcases device.getMasterFingerprint state' with ⟨error | fingerprint, later⟩
    · exact .inr ⟨_, rfl⟩
    · dsimp only
      rcases device.ask path (fetchPathExpect device.deviceKind network path) promptTimeout later
        with ⟨xpub | error | _, last⟩
      · exact .inl ⟨_, rfl⟩
      · exact .inr ⟨_, rfl⟩
      · exact .inr ⟨_, rfl⟩
  · exact .inr ⟨cause, rfl⟩

end OnePath

end Bip138
