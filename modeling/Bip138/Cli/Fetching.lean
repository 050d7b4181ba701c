/-
# The fetch thread collects keys

The fetch thread of `decrypt` is `collect_until`, called with the channel of keys and the flag.
The threads take its steps one at a time and in between those of the two others, and a device
answers when it likes. What is left of a run, when only the dealings of the fetch thread are kept,
is a collection again: it reads the flags and the answers the thread has read, one after the
other and no others, the caller hears of the keys that were sent, and the collection fails
exactly when the thread reports a failure (`collectUntil_of_returned`).

The invariant says what the rest of the collection is, at each point the thread may be at.
-/

import Bip138.Cli.Hearing
import Bip138.Front.Collection

namespace Bip138.Cli

open Bip138.Rust Bip138.Ll

/-! ## What the fetch thread deals in -/

/-- What the fetch thread reads from outside, and what it sends. -/
inductive Event
  | listed (device : Option DeviceKind)
  | polled (stop : Bool)
  | answered (answer : DeviceAnswer PublicKey)
  | heard (key : PublicKey)
  | reported (cause : FetchFailed)

/-- The part of a step that the fetch thread has in it. -/
def noted (threads : Threads) : Action → List Event
  | .listed device => [.listed device]
  | .answered answer => [.answered answer]
  | .fetch => match threads.fetch with
      | .looping _ (_ :: _) => [.polled threads.stop]
      | .sendingKey key _ _ => [.heard key]
      | .reporting cause => [.reported cause]
      | _ => []
  | .main | .decrypt => []

namespace Event

def listed? : Event → Option (Option DeviceKind)
  | .listed device => some device
  | .polled _ | .answered _ | .heard _ | .reported _ => none

def polled? : Event → Option Bool
  | .polled stop => some stop
  | .listed _ | .answered _ | .heard _ | .reported _ => none

def answered? : Event → Option (DeviceAnswer PublicKey)
  | .answered answer => some answer
  | .listed _ | .polled _ | .heard _ | .reported _ => none

def heard? : Event → Option PublicKey
  | .heard key => some key
  | .listed _ | .polled _ | .answered _ | .reported _ => none

def reported? : Event → Option FetchFailed
  | .reported cause => some cause
  | .listed _ | .polled _ | .answered _ | .heard _ => none

end Event

/-! ## A collection by script -/

section Scripts

/-- The answer of which only the root of the key is looked at. -/
def rootAnswer : DeviceAnswer Xpub → DeviceAnswer PublicKey
  | .xpub xpub => .xpub xpub.publicKey
  | .failed error => .failed error
  | .timedOut => .timedOut

/-- A device that answers what is in a script. -/
def scripted (kind : DeviceKind) : Device (List (DeviceAnswer Xpub)) where
  deviceKind := kind
  display _ answers := answers
  getMasterFingerprint answers := (.error "", answers)
  getExtendedPubkey _ _ answers := match answers with
    | [] => (.timedOut, [])
    | answer :: answers => (answer, answers)

def listing (device : Option DeviceKind) (_ : Network) :
    Option (List (Device (List (DeviceAnswer Xpub)))) :=
  some (device.map scripted).toList

/-- A caller that stops when a script says so, and keeps the roots of the keys it hears of. -/
def listening : Caller (List Bool × List PublicKey) where
  log _ host := host
  onXpub _ xpub host := (host.1, host.2 ++ [xpub.publicKey])
  shouldStop host := match host.1 with
    | [] => (false, host)
    | stop :: flags => (stop, flags, host.2)

theorem deviceKind_scripted (kind : DeviceKind) : (scripted kind).deviceKind = kind := rfl

theorem log_listening (log : FetchLog) (host : List Bool × List PublicKey) :
    listening.log log host = host := rfl

/-- The collector of the threads, for the one that is called. -/
def Collector.of (collector : XpubCollector) (unlockPath : DerivationPath) : Collector where
  paths := collector.paths
  bitboxUnlockPath := unlockPath

/-- What a collection returns, and what it leaves of the two scripts. -/
abbrev Outcome :=
  Exec FetchFailed XpubCollection × (List Bool × List PublicKey) × List (DeviceAnswer Xpub)

/-- A collection whose loop has come to an end. -/
def finished (run : Exec FetchFailed (BTreeSet Xpub × List XpubWarning) ×
    (List Bool × List PublicKey) × List (DeviceAnswer Xpub)) : Outcome :=
  (run.1.map collected, run.2.1, run.2.2)

variable {collector : XpubCollector} {device : DeviceKind} {path : DerivationPath}
  {expect : Expect} {rest : List (DerivationPath × Expect)} {xpubs : BTreeSet Xpub}
  {warnings : List XpubWarning} {flags : List Bool} {heard : List PublicKey}
  {answers : List (DeviceAnswer Xpub)}

/-- The loop of a collection by script. -/
abbrev loop (collector : XpubCollector) (device : DeviceKind)
    (rest : List (DerivationPath × Expect)) (xpubs : BTreeSet Xpub) (warnings : List XpubWarning)
    (flags : List Bool) (heard : List PublicKey) (answers : List (DeviceAnswer Xpub)) : Outcome :=
  finished (collector.collectPaths (scripted device) listening rest xpubs warnings (flags, heard)
    answers)

theorem loop_stop : loop collector device ((path, expect) :: rest) xpubs warnings (true :: flags)
      heard answers =
    (.ok ⟨xpubs.toList, warnings⟩, (flags, heard), answers) := rfl

theorem loop_xpub (xpub : Xpub) :
    loop collector device ((path, expect) :: rest) xpubs warnings (false :: flags) heard
        (.xpub xpub :: answers) =
      loop collector device rest (xpubs.insert xpub) warnings flags (heard ++ [xpub.publicKey])
        answers := rfl

/-- An answer that is not a key, and the error it is reported with. -/
inductive Refusal {Key : Type} : DeviceAnswer Key → String → Prop
  | failed (error : String) : Refusal (.failed error) error
  | timedOut : Refusal .timedOut "Timed out"

/-- A path that had to be fetched ends the loop. -/
theorem loop_mustFetch {answer : DeviceAnswer Xpub} {error : String}
    (hrefusal : Refusal answer error) :
    loop collector device ((path, .mustFetch) :: rest) xpubs warnings (false :: flags) heard
        (answer :: answers) =
      (.fail ⟨device, path, .mustFetch, error⟩, (flags, heard), answers) := by
  cases hrefusal with
  | failed | timedOut => rfl

/-- Any other path is skipped with a warning. -/
theorem exists_loop_eq (collector : XpubCollector) (device : DeviceKind) (path : DerivationPath)
    (expect : Expect) (rest : List (DerivationPath × Expect)) (xpubs : BTreeSet Xpub)
    (warnings : List XpubWarning)
    {answer : DeviceAnswer Xpub} {error : String} (hrefusal : Refusal answer error)
    (hsoft : expect ≠ .mustFetch) :
    ∃ warning, ∀ flags heard answers,
      loop collector device ((path, expect) :: rest) xpubs warnings (false :: flags) heard
          (answer :: answers) =
        loop collector device rest xpubs (warnings ++ [warning]) flags heard answers := by
  cases expect with
  | mustFetch => exact absurd rfl hsoft
  | promptUser | canFail =>
      cases hrefusal with
      | failed | timedOut => exact ⟨_, fun _ _ _ => rfl⟩

/-- A collection by script goes into the loop when the device is unlocked. -/
theorem collectUntil_eq (collector : XpubCollector) (device : DeviceKind) (flags : List Bool)
    (heard : List PublicKey) (answers : List (DeviceAnswer Xpub)) :
    collector.collectUntil (listing (some device)) listening (flags, heard) answers =
      match Bip138.unlockBitbox (scripted device) collector.network listening (flags, heard)
        answers with
      | (.error fault, host, answers) => (.error fault, host, answers)
      | (.ok (), host, answers) => finished (collector.collectPaths (scripted device) listening
          (collector.paths device) .empty [] host answers) := by
  rw [XpubCollector.collectUntil]
  dsimp only [listing, Option.map_some, Option.toList_some]
  rw [deviceKind_scripted, log_listening]
  rcases Bip138.unlockBitbox (scripted device) collector.network listening (flags, heard) answers
    with ⟨fault | ⟨⟩, host, later⟩
  · rfl
  · dsimp only
    rw [finished]
    rcases collector.collectPaths (scripted device) listening (collector.paths device) .empty []
      host later with ⟨fault | ⟨xpubs, warnings⟩, host, later⟩
    · rfl
    · rfl

/-- A device that is not unlocked goes into the loop at once. -/
theorem collectUntil_listing (hkind : device ≠ .bitBox02) :
    collector.collectUntil (listing (some device)) listening (flags, heard) answers =
      loop collector device (collector.paths device) .empty [] flags heard answers := by
  have hunlocked : Bip138.unlockBitbox (scripted device) collector.network listening
      (flags, heard) answers = (.ok (), (flags, heard), answers) := if_pos hkind
  rw [collectUntil_eq, hunlocked]

variable {unlockPath : DerivationPath}

theorem collectUntil_unlocked (hpath : bitboxUnlockPath collector.network = .ok unlockPath)
    (xpub : Xpub) :
    collector.collectUntil (listing (some .bitBox02)) listening (flags, heard)
        (.xpub xpub :: answers) =
      loop collector .bitBox02 (collector.paths .bitBox02) .empty [] flags heard answers := by
  have hunlocked : Bip138.unlockBitbox (scripted .bitBox02) collector.network listening
      (flags, heard) (.xpub xpub :: answers) = (.ok (), (flags, heard), answers) := by
    rw [Bip138.unlockBitbox, hpath]
    rfl
  rw [collectUntil_eq, hunlocked]

theorem collectUntil_locked (hpath : bitboxUnlockPath collector.network = .ok unlockPath)
    {answer : DeviceAnswer Xpub} {error : String} (hrefusal : Refusal answer error) :
    collector.collectUntil (listing (some .bitBox02)) listening (flags, heard)
        (answer :: answers) =
      (.fail ⟨.bitBox02, unlockPath, .promptUser, error⟩, (flags, heard), answers) := by
  have hlocked : Bip138.unlockBitbox (scripted .bitBox02) collector.network listening
      (flags, heard) (answer :: answers) =
        (.fail ⟨.bitBox02, unlockPath, .promptUser, error⟩, (flags, heard), answers) := by
    rw [Bip138.unlockBitbox, hpath]
    cases hrefusal with
    | failed | timedOut => rfl
  rw [collectUntil_eq, hlocked]
  rfl

end Scripts

/-! ## What is left of the collection -/

section Remaining

variable {collector : XpubCollector} {heard : List PublicKey} {reported : List FetchFailed}
  {remaining : List Bool → List (DeviceAnswer Xpub) → Outcome} {unlockPath : DerivationPath}
  {threads later : Threads} {action : Action}

/-- A failure is reported, once, and a collection is not. -/
def Reports : Exec FetchFailed XpubCollection → List FetchFailed → Prop
  | .ok _, causes => causes = []
  | .error (.error cause), causes => causes = [cause]
  | .error (.panic _), _ | .error .unfinished, _ => False

/-- What is left of a collection when the fetch thread is at this point, for the flags and the
answers to come. -/
def Remains (collector : XpubCollector) (heard : List PublicKey) (reported : List FetchFailed)
    (remaining : List Bool → List (DeviceAnswer Xpub) → Outcome) : FetchThread → Prop
  | .unlocking => reported = [] ∧ ∀ flags answers, remaining flags answers =
      collector.collectUntil (listing (some .bitBox02)) listening (flags, heard) answers
  | .looping device rest | .storingStop device rest =>
      reported = [] ∧ ∃ xpubs warnings, ∀ flags answers, remaining flags answers =
        loop collector device rest xpubs warnings flags heard answers
  | .fetching device path expect rest =>
      reported = [] ∧ ∃ xpubs warnings, ∀ flags answers, remaining flags answers =
        loop collector device ((path, expect) :: rest) xpubs warnings (false :: flags) heard answers
  | .sendingKey key device rest =>
      reported = [] ∧ ∃ xpubs warnings, ∀ flags answers, remaining flags answers =
        loop collector device rest xpubs warnings flags (heard ++ [key]) answers
  | .failing cause | .reporting cause => reported = [] ∧ ∀ flags answers,
      remaining flags answers = (.fail cause, (flags, heard), answers)
  | .returned => ∃ result, Reports result reported ∧ ∀ flags answers,
      remaining flags answers = (result, (flags, heard), answers)
  | .unspawned | .starting | .listing => False

/-- A collection begins where a thread is that has got a device. -/
theorem remains_unlockBitbox (collector : XpubCollector) (unlockPath : DerivationPath)
    (device : DeviceKind) :
    Remains collector [] [] (fun flags answers =>
        collector.collectUntil (listing (some device)) listening (flags, []) answers)
      (unlockBitbox (.of collector unlockPath) device) := by
  cases device with
  | bitBox02 => exact ⟨rfl, fun _ _ => rfl⟩
  | coldcard | ledger | ledgerSimulator | specter | specterSimulator | jade =>
      exact ⟨rfl, .empty, [], fun _ _ => collectUntil_listing nofun⟩

/-- A path that was not fetched ends the collection or is skipped. -/
theorem remains_notFetched {device : DeviceKind} {path : DerivationPath} {expect : Expect}
    {rest : List (DerivationPath × Expect)} {answer : DeviceAnswer Xpub} {error : String}
    (hremains : Remains collector heard reported remaining (.fetching device path expect rest))
    (hrefusal : Refusal answer error) :
    Remains collector heard reported (fun flags answers => remaining flags (answer :: answers))
      (notFetched device path expect rest error) := by
  obtain ⟨hreported, xpubs, warnings, hremaining⟩ := hremains
  rcases eq_or_ne expect .mustFetch with rfl | hsoft
  · refine ⟨hreported, fun flags answers => ?_⟩
    exact (hremaining flags (answer :: answers)).trans (loop_mustFetch hrefusal)
  · obtain ⟨warning, hloop⟩ :=
      exists_loop_eq collector device path expect rest xpubs warnings hrefusal hsoft
    have hskipped : notFetched device path expect rest error = .looping device rest := by
      cases expect with
      | mustFetch => exact absurd rfl hsoft
      | promptUser | canFail => rfl
    rw [hskipped]
    refine ⟨hreported, xpubs, warnings ++ [warning], fun flags answers => ?_⟩
    exact (hremaining flags (answer :: answers)).trans (hloop flags heard answers)

/-- An answer comes in while a device is unlocked, or asked for a path. -/
inductive AnswerStep (collector : Collector) :
    FetchThread → DeviceAnswer PublicKey → FetchThread → Prop
  | unlocked (key : PublicKey) : AnswerStep collector .unlocking (.xpub key)
      (.looping .bitBox02 (collector.paths .bitBox02))
  | locked (answer : DeviceAnswer PublicKey) (error : String) (hrefusal : Refusal answer error) :
      AnswerStep collector .unlocking answer
        (.failing ⟨.bitBox02, collector.bitboxUnlockPath, .promptUser, error⟩)
  | granted (key : PublicKey) (device : DeviceKind) (path : DerivationPath) (expect : Expect)
      (rest : List (DerivationPath × Expect)) :
      AnswerStep collector (.fetching device path expect rest) (.xpub key)
        (.sendingKey key device rest)
  | refused (answer : DeviceAnswer PublicKey) (error : String) (hrefusal : Refusal answer error)
      (device : DeviceKind) (path : DerivationPath) (expect : Expect)
      (rest : List (DerivationPath × Expect)) :
      AnswerStep collector (.fetching device path expect rest) answer
        (notFetched device path expect rest error)

theorem answerStep_of_fetchStep {collector : Collector} {answer : DeviceAnswer PublicKey}
    (hstep : fetchStep collector threads (.answered answer) = some later) :
    AnswerStep collector threads.fetch answer later.fetch := by
  generalize haction : Action.answered answer = action at hstep
  revert hstep
  fun_cases Cli.fetchStep collector threads action with
  | case1 | case2 | case3 | case4 | case8 | case9 | case10 | case14 | case15 | case16 | case17 |
    case18 => cases haction
  | case5 key hat =>
      rintro ⟨⟩
      cases haction
      rw [hat]
      exact .unlocked key
  | case6 error hat =>
      rintro ⟨⟩
      cases haction
      rw [hat]
      exact .locked _ error (.failed error)
  | case7 hat =>
      rintro ⟨⟩
      cases haction
      rw [hat]
      exact .locked _ _ .timedOut
  | case11 device path expect rest key hat =>
      rintro ⟨⟩
      cases haction
      rw [hat]
      exact .granted key device path expect rest
  | case12 device path expect rest error hat =>
      rintro ⟨⟩
      cases haction
      rw [hat]
      exact .refused _ error (.failed error) device path expect rest
  | case13 device path expect rest hat =>
      rintro ⟨⟩
      cases haction
      rw [hat]
      exact .refused _ _ .timedOut device path expect rest
  | case19 => exact fun hstep => by cases hstep

theorem refusal_of_rootAnswer {full : DeviceAnswer Xpub} {error : String}
    (hrefusal : Refusal (rootAnswer full) error) : Refusal full error := by
  cases full with
  | xpub xpub => cases hrefusal
  | failed _ =>
      cases hrefusal
      exact .failed error
  | timedOut =>
      cases hrefusal
      exact .timedOut

theorem exists_xpub_of_rootAnswer {full : DeviceAnswer Xpub} {key : PublicKey}
    (hroot : rootAnswer full = .xpub key) : ∃ xpub, full = .xpub xpub ∧ xpub.publicKey = key := by
  cases full with
  | xpub xpub =>
      cases hroot
      exact ⟨xpub, rfl, rfl⟩
  | failed | timedOut => cases hroot

/-- An answer is read by what is left of the collection. -/
theorem Remains.answered {fetch next : FetchThread} {root : DeviceAnswer PublicKey}
    (hpath : bitboxUnlockPath collector.network = .ok unlockPath)
    (hremains : Remains collector heard reported remaining fetch)
    (hstep : AnswerStep (.of collector unlockPath) fetch root next)
    {answer : DeviceAnswer Xpub} (hroot : rootAnswer answer = root) :
    Remains collector heard reported (fun flags answers => remaining flags (answer :: answers))
      next := by
  cases hstep with
  | unlocked key =>
      obtain ⟨xpub, rfl, -⟩ := exists_xpub_of_rootAnswer hroot
      exact ⟨hremains.1, .empty, [], fun flags answers =>
        (hremains.2 flags (.xpub xpub :: answers)).trans (collectUntil_unlocked hpath xpub)⟩
  | locked _ error hrefusal =>
      exact ⟨hremains.1, fun flags answers => (hremains.2 flags (answer :: answers)).trans
        (collectUntil_locked hpath (refusal_of_rootAnswer (hroot ▸ hrefusal)))⟩
  | granted key device path expect rest =>
      obtain ⟨xpub, rfl, rfl⟩ := exists_xpub_of_rootAnswer hroot
      obtain ⟨hreported, xpubs, warnings, hremaining⟩ := hremains
      exact ⟨hreported, xpubs.insert xpub, warnings, fun flags answers =>
        (hremaining flags (.xpub xpub :: answers)).trans (loop_xpub xpub)⟩
  | refused _ error hrefusal device path expect rest =>
      exact remains_notFetched hremains (refusal_of_rootAnswer (hroot ▸ hrefusal))

/-- A step of the fetch thread itself reads a flag or sends, and leaves the answers alone. -/
theorem Remains.fetchStep {collector' : Collector}
    (hremains : Remains collector heard reported remaining threads.fetch)
    (hstep : fetchStep collector' threads .fetch = some later) :
    Remains collector (heard ++ (noted threads .fetch).filterMap Event.heard?)
      (reported ++ (noted threads .fetch).filterMap Event.reported?)
      (fun flags answers =>
        remaining ((noted threads .fetch).filterMap Event.polled? ++ flags) answers)
      later.fetch := by
  generalize haction : Action.fetch = action at hstep
  revert hstep
  fun_cases Cli.fetchStep collector' threads action with
  | case3 | case4 | case5 | case6 | case7 | case11 | case12 | case13 => cases haction
  | case1 hat | case2 hat =>
      rw [hat] at hremains
      exact hremains.elim
  | case8 device hat =>
      rintro ⟨⟩
      rw [hat] at hremains
      obtain ⟨hreported, xpubs, warnings, hremaining⟩ := hremains
      have hnoted : noted threads .fetch = [] := by rw [noted, hat]
      rw [hnoted, List.filterMap_nil, List.filterMap_nil, List.append_nil, List.append_nil]
      exact ⟨.ok ⟨xpubs.toList, warnings⟩, hreported, hremaining⟩
  | case9 device path expect rest hat hstop =>
      rintro ⟨⟩
      rw [hat] at hremains
      obtain ⟨hreported, xpubs, warnings, hremaining⟩ := hremains
      have hnoted : noted threads .fetch = [.polled true] := by rw [noted, hat, hstop]
      rw [hnoted]
      change Remains collector (heard ++ []) (reported ++ [])
        (fun flags answers => remaining (true :: flags) answers) .returned
      rw [List.append_nil, List.append_nil]
      exact ⟨.ok ⟨xpubs.toList, warnings⟩, hreported, fun flags answers =>
        (hremaining (true :: flags) answers).trans loop_stop⟩
  | case10 device path expect rest hat hstop =>
      rintro ⟨⟩
      rw [hat] at hremains
      obtain ⟨hreported, xpubs, warnings, hremaining⟩ := hremains
      have hnoted : noted threads .fetch = [.polled false] := by
        rw [noted, hat, Bool.eq_false_iff.mpr hstop]
      rw [hnoted]
      change Remains collector (heard ++ []) (reported ++ [])
        (fun flags answers => remaining (false :: flags) answers) (.fetching device path expect rest)
      rw [List.append_nil, List.append_nil]
      exact ⟨hreported, xpubs, warnings, fun flags answers => hremaining (false :: flags) answers⟩
  | case14 key device rest hat hopen =>
      rintro ⟨⟩
      rw [hat] at hremains
      have hnoted : noted threads .fetch = [.heard key] := by rw [noted, hat]
      rw [hnoted]
      change Remains collector (heard ++ [key]) (reported ++ []) remaining (.looping device rest)
      rw [List.append_nil]
      exact hremains
  | case15 key device rest hat hclosed =>
      rintro ⟨⟩
      rw [hat] at hremains
      have hnoted : noted threads .fetch = [.heard key] := by rw [noted, hat]
      rw [hnoted]
      change Remains collector (heard ++ [key]) (reported ++ []) remaining
        (.storingStop device rest)
      rw [List.append_nil]
      exact hremains
  | case16 device rest hat =>
      rintro ⟨⟩
      rw [hat] at hremains
      have hnoted : noted threads .fetch = [] := by rw [noted, hat]
      rw [hnoted, List.filterMap_nil, List.filterMap_nil, List.append_nil, List.append_nil]
      exact hremains
  | case17 cause hat =>
      rintro ⟨⟩
      rw [hat] at hremains
      have hnoted : noted threads .fetch = [] := by rw [noted, hat]
      rw [hnoted, List.filterMap_nil, List.filterMap_nil, List.append_nil, List.append_nil]
      exact hremains
  | case18 cause hat =>
      rintro ⟨⟩
      rw [hat] at hremains
      obtain ⟨rfl, hremaining⟩ := hremains
      have hnoted : noted threads .fetch = [.reported cause] := by rw [noted, hat]
      rw [hnoted]
      change Remains collector (heard ++ []) [cause] remaining .returned
      rw [List.append_nil]
      exact ⟨.fail cause, rfl, hremaining⟩
  | case19 => exact fun hstep => by cases hstep

end Remaining

/-! ## Over whole runs -/

section Runs

variable {collector : XpubCollector} {unlockPath : DerivationPath} {threads later : Threads}
  {seen : List Event}

/-- The collection that the dealings of the fetch thread belong to, with flags and answers that
it may go on to read. -/
def replay (collector : XpubCollector) (device : Option DeviceKind) (seen : List Event)
    (answers : List (DeviceAnswer Xpub)) (flags : List Bool) (others : List (DeviceAnswer Xpub)) :
    Outcome :=
  collector.collectUntil (listing device) listening (seen.filterMap Event.polled? ++ flags, [])
    (answers ++ others)

/-- The fetch thread has not begun to collect, or ended before it did, or what is left of the
collection is known. -/
inductive Collects (collector : XpubCollector) (seen : List Event) (fetch : FetchThread) : Prop
  | idle (hseen : seen = [])
      (hfetch : fetch = .unspawned ∨ fetch = .starting ∨ fetch = .listing ∨ fetch = .returned)
  | collecting (device : Option DeviceKind) (hlisted : seen.filterMap Event.listed? = [device])
      (hremains : ∀ answers, answers.map rootAnswer = seen.filterMap Event.answered? →
        Remains collector (seen.filterMap Event.heard?) (seen.filterMap Event.reported?)
          (replay collector device seen answers) fetch)

/-- Every answer is one of a key with some chain code. -/
theorem exists_map_rootAnswer (answers : List (DeviceAnswer PublicKey)) :
    ∃ full : List (DeviceAnswer Xpub), full.map rootAnswer = answers := by
  induction answers with
  | nil => exact ⟨[], rfl⟩
  | cons answer answers ih =>
      obtain ⟨full, rfl⟩ := ih
      cases answer with
      | xpub key =>
          exact ⟨.xpub ⟨false, 0, ⟨[0, 0, 0, 0], rfl⟩, 0, key, Block.zero 32⟩ :: full, rfl⟩
      | failed error => exact ⟨.failed error :: full, rfl⟩
      | timedOut => exact ⟨.timedOut :: full, rfl⟩

/-- Before a device is listed nothing was read or sent. -/
theorem Collects.eq_nil {fetch : FetchThread} (hcollects : Collects collector seen fetch)
    (hfetch : fetch = .unspawned ∨ fetch = .starting ∨ fetch = .listing) : seen = [] := by
  cases hcollects with
  | idle hseen _ => exact hseen
  | collecting device _ hremains =>
      obtain ⟨answers, hanswers⟩ := exists_map_rootAnswer (seen.filterMap Event.answered?)
      have hremains := hremains answers hanswers
      rcases hfetch with rfl | rfl | rfl
      · exact hremains.elim
      · exact hremains.elim
      · exact hremains.elim

theorem Collects.answered (hpath : bitboxUnlockPath collector.network = .ok unlockPath)
    (hcollects : Collects collector seen threads.fetch) {answer : DeviceAnswer PublicKey}
    (hstep : fetchStep (.of collector unlockPath) threads (.answered answer) = some later) :
    Collects collector (seen ++ [.answered answer]) later.fetch := by
  have hanswer := answerStep_of_fetchStep hstep
  cases hcollects with
  | idle hseen hfetch =>
      rcases hfetch with hat | hat | hat | hat <;>
        · rw [hat] at hanswer
          cases hanswer
  | collecting device hlisted hremains =>
      refine .collecting device ?_ fun full hfull => ?_
      · rw [List.filterMap_append, hlisted]
        rfl
      · rw [List.filterMap_append] at hfull
        obtain ⟨answers, last, rfl, hanswers, hlast⟩ := List.map_eq_append_iff.mp hfull
        obtain ⟨full, others, rfl, hroot, hothers⟩ := List.map_eq_cons_iff.mp hlast
        obtain rfl := List.map_eq_nil_iff.mp hothers
        have hnext := (hremains answers hanswers).answered hpath hanswer hroot
        have hreplay : replay collector device (seen ++ [.answered answer]) (answers ++ [full]) =
            fun flags others => replay collector device seen answers flags (full :: others) := by
          funext flags others
          rw [replay, replay, List.filterMap_append, List.append_assoc, List.append_assoc]
          rfl
        rw [hreplay, List.filterMap_append, List.filterMap_append]
        simpa only [Event.heard?, Event.reported?, List.filterMap_cons, List.filterMap_nil,
          List.append_nil] using hnext

/-- A step of the fetch thread itself lists no device and reads no answer. -/
theorem noted_fetch (threads : Threads) :
    (noted threads .fetch).filterMap Event.listed? = [] ∧
      (noted threads .fetch).filterMap Event.answered? = [] := by
  rw [noted]
  split
  · exact ⟨rfl, rfl⟩
  · exact ⟨rfl, rfl⟩
  · exact ⟨rfl, rfl⟩
  · exact ⟨rfl, rfl⟩

theorem Collects.fetch {collector' : Collector}
    (hcollects : Collects collector seen threads.fetch)
    (hstep : fetchStep collector' threads .fetch = some later) :
    Collects collector (seen ++ noted threads .fetch) later.fetch := by
  cases hcollects with
  | idle hseen hfetch =>
      unfold Cli.fetchStep at hstep
      rcases hfetch with hat | hat | hat | hat <;> rw [hat] at hstep
      · cases hstep
      · have hnoted : noted threads .fetch = [] := by rw [noted, hat]
        rw [hnoted, hseen]
        dsimp only at hstep
        split at hstep
        · cases hstep
          exact .idle rfl (.inr (.inr (.inr rfl)))
        · cases hstep
          exact .idle rfl (.inr (.inr (.inl rfl)))
      · cases hstep
      · cases hstep
  | collecting device hlisted hremains =>
      obtain ⟨hlists, hreads⟩ := noted_fetch threads
      refine .collecting device ?_ fun answers hanswers => ?_
      · rw [List.filterMap_append, hlisted, hlists, List.append_nil]
      · rw [List.filterMap_append, hreads, List.append_nil] at hanswers
        have hnext := (hremains answers hanswers).fetchStep hstep
        have hreplay : replay collector device (seen ++ noted threads .fetch) answers =
            fun flags others => replay collector device seen answers
              ((noted threads .fetch).filterMap Event.polled? ++ flags) others := by
          funext flags others
          rw [replay, replay, List.filterMap_append, List.append_assoc]
        rw [hreplay, List.filterMap_append, List.filterMap_append]
        exact hnext

theorem fetch_eq_of_listed {collector : Collector} {device : Option DeviceKind}
    (hstep : fetchStep collector threads (.listed device) = some later) :
    threads.fetch = .listing := by
  generalize haction : Action.listed device = action at hstep
  revert hstep
  fun_cases Cli.fetchStep collector threads action with
  | case3 hat => exact fun _ => hat
  | case4 _ hat => exact fun _ => hat
  | case19 => exact fun hstep => by cases hstep
  | _ => cases haction

theorem Collects.listed (hcollects : Collects collector seen threads.fetch)
    {device : Option DeviceKind}
    (hstep : fetchStep (.of collector unlockPath) threads (.listed device) = some later) :
    Collects collector (seen ++ [.listed device]) later.fetch := by
  have hat : threads.fetch = .listing := fetch_eq_of_listed hstep
  rw [hcollects.eq_nil (.inr (.inr hat))]
  unfold Cli.fetchStep at hstep
  rw [hat] at hstep
  refine .collecting device rfl fun answers hanswers => ?_
  obtain rfl := List.map_eq_nil_iff.mp hanswers
  cases device with
  | none =>
      cases hstep
      exact ⟨.ok ⟨[], []⟩, rfl, fun _ _ => rfl⟩
  | some device =>
      cases hstep
      exact remains_unlockBitbox collector unlockPath device

/-- The fetch thread is started by the main thread, and not before. -/
def Unspawned (threads : Threads) : Prop :=
  threads.main.Spawns → threads.fetch = .unspawned

theorem Unspawned.mainStep (hunspawned : Unspawned threads)
    (hstep : mainStep threads = some later) :
    Unspawned later ∧ (later.fetch = threads.fetch ∨
      threads.fetch = .unspawned ∧ later.fetch = .starting) := by
  revert hstep
  fun_cases Cli.mainStep threads with
  | case1 _ hat | case2 _ hat | case3 hat =>
      rintro ⟨⟩
      have hfetch : threads.fetch = .unspawned := hunspawned (by rw [hat]; trivial)
      exact ⟨fun _ => hfetch, .inl rfl⟩
  | case4 hat =>
      rintro ⟨⟩
      exact ⟨False.elim, .inr ⟨hunspawned (by rw [hat]; trivial), rfl⟩⟩
  | case5 | case6 | case7 | case9 | case10 =>
      rintro ⟨⟩
      exact ⟨False.elim, .inl rfl⟩
  | case8 | case11 => exact fun hstep => by cases hstep

theorem Unspawned.fetchStep {collector : Collector} {action : Action}
    (hunspawned : Unspawned threads) (hstep : fetchStep collector threads action = some later) :
    Unspawned later := by
  have hmain : later.main = threads.main := by
    cases fetchEffect_of_fetchStep hstep with
    | moves | sends | stops | fails | reports => rfl
  intro hspawns
  rw [hmain] at hspawns
  unfold Cli.fetchStep at hstep
  rw [hunspawned hspawns] at hstep
  cases action with
  | main | decrypt | fetch | listed | answered => cases hstep

/-- What the fetch thread has dealt in is the beginning of a collection. -/
def Follows (collector : XpubCollector) (seen : List Event) (threads : Threads) : Prop :=
  Unspawned threads ∧ Collects collector seen threads.fetch

section Schedules

variable [Target] [Miniscript] [SerdeJson] [Serde DescriptorBackup] [Serde PolicySet]
  [Serde PolicyBackup] [V0] {crypto : Crypto} {backup : EncryptedBackup}
  {allowed : Threads → Action → Prop} {file : Option DescriptorPublicKey} {action : Action}

theorem decryptStep_keepsFetch (hstep : decryptStep crypto backup threads = some later) :
    later.main = threads.main ∧ later.fetch = threads.fetch := by
  revert hstep
  fun_cases Cli.decryptStep crypto backup threads with
  | case2 | case15 => exact fun hstep => by cases hstep
  | _ =>
      rintro ⟨⟩
      exact ⟨rfl, rfl⟩

/-- A step of any of the threads keeps to the collection. -/
theorem Follows.step (hpath : bitboxUnlockPath collector.network = .ok unlockPath)
    (hfollows : Follows collector seen threads)
    (hstep : step crypto backup (.of collector unlockPath) threads action = some later) :
    Follows collector (seen ++ noted threads action) later := by
  obtain ⟨hunspawned, hcollects⟩ := hfollows
  cases action with
  | main =>
      obtain ⟨hnext, hfetch | ⟨hbefore, hfetch⟩⟩ := hunspawned.mainStep hstep
      · rw [Follows, noted, List.append_nil, hfetch]
        exact ⟨hnext, hcollects⟩
      · rw [noted, List.append_nil, hcollects.eq_nil (.inl hbefore)]
        exact ⟨hnext, .idle rfl (.inr (.inl hfetch))⟩
  | decrypt =>
      obtain ⟨hmain, hfetch⟩ := decryptStep_keepsFetch hstep
      rw [Follows, noted, List.append_nil, Unspawned, hmain, hfetch]
      exact ⟨hunspawned, hcollects⟩
  | fetch => exact ⟨hunspawned.fetchStep hstep, hcollects.fetch hstep⟩
  | listed device => exact ⟨hunspawned.fetchStep hstep, hcollects.listed hstep⟩
  | answered answer => exact ⟨hunspawned.fetchStep hstep, hcollects.answered hpath hstep⟩

/-- In every interleaving the fetch thread, once it has returned, has either dealt with nobody, or
has done what `collect_until` does by itself: of one device it was told, it read its answers and
the flag as the collection reads them, to the last one and not beyond; the keys that it sent are
those the caller of the collection hears of, in their order; and it reported a failure exactly
when the collection fails, and that one. -/
theorem collectUntil_of_returned (hpath : bitboxUnlockPath collector.network = .ok unlockPath)
    (hrun : Traced (Cli.step crypto backup (.of collector unlockPath)) allowed noted (start file)
      seen threads)
    (hreturned : threads.fetch = .returned) :
    seen = [] ∨ ∃ device, seen.filterMap Event.listed? = [device] ∧
      ∀ answers, answers.map rootAnswer = seen.filterMap Event.answered? →
        ∃ result, Reports result (seen.filterMap Event.reported?) ∧ ∀ flags others,
          collector.collectUntil (listing device) listening
              (seen.filterMap Event.polled? ++ flags, []) (answers ++ others) =
            (result, (flags, seen.filterMap Event.heard?), others) := by
  have hfollows : Follows collector seen threads :=
    hrun.invariant ⟨fun _ => rfl, .idle rfl (.inl rfl)⟩
      fun _ _ _ _ hfollows _ hstep => hfollows.step hpath hstep
  have hcollects := hfollows.2
  rw [hreturned] at hcollects
  cases hcollects with
  | idle hseen _ => exact .inl hseen
  | collecting device hlisted hremains => exact .inr ⟨device, hlisted, hremains⟩

end Schedules

end Runs

open Cli.Sample Bip138.Sample in
/-- A Ledger grants the first path it is asked for, and the key opens the backup. -/
theorem collectUntil_of_returned_ledger :
    ∃ backup seen threads unlockPath,
      Traced (step sampleCrypto backup (.of sampleCollector unlockPath)) (fun _ _ => True) noted
        (start none) seen threads ∧
      seen.filterMap Event.heard? = [holder] ∧
      (seen = [] ∨ ∃ device, seen.filterMap Event.listed? = [device] ∧
        ∀ answers, answers.map rootAnswer = seen.filterMap Event.answered? →
          ∃ result, Reports result (seen.filterMap Event.reported?) ∧ ∀ flags others,
            sampleCollector.collectUntil (listing device) listening
                (seen.filterMap Event.polled? ++ flags, []) (answers ++ others) =
              (result, (flags, seen.filterMap Event.heard?), others)) := by
  obtain ⟨backup, hdocument⟩ := exists_decryptDocument_letter
  obtain ⟨unlockPath, hpath, -⟩ := exists_bitboxUnlockPath sampleCollector.network
  obtain ⟨path, hplanned⟩ := sampleCollector.exists_mustFetch_mem_paths .ledger
  obtain ⟨⟨path, expect⟩, rest, hpaths⟩ := List.exists_cons_of_ne_nil (List.ne_nil_of_mem hplanned)
  have hstart : Traced (step sampleCrypto backup (.of sampleCollector unlockPath))
      (fun _ _ => True) noted (start none) [] (start none) := .start
  have hlisted : Traced (step sampleCrypto backup (.of sampleCollector unlockPath))
      (fun _ _ => True) noted (start none) [.listed (some .ledger)]
      ⟨false, [], [], .droppingKeySender, .waiting false,
        .looping .ledger ((path, expect) :: rest)⟩ := by
    rw [← hpaths]
    exact ((hstart.next .main trivial rfl).next .fetch trivial rfl).next
      (.listed (some .ledger)) trivial rfl
  have hheard : Traced (step sampleCrypto backup (.of sampleCollector unlockPath))
      (fun _ _ => True) noted (start none)
      [.listed (some .ledger), .polled false, .answered (.xpub holder), .heard holder]
      ⟨false, [holder], [], .droppingKeySender, .waiting false, .looping .ledger rest⟩ :=
    ((hlisted.next .fetch trivial rfl).next (.answered (.xpub holder)) trivial rfl).next .fetch
      trivial rfl
  have htried := ((hheard.next .decrypt trivial rfl).next .decrypt trivial rfl).next .decrypt
    trivial rfl
  rw [tryKey_eq hdocument] at htried
  have hstopped := htried.next .decrypt trivial rfl
  cases rest with
  | nil =>
      have hreturned := hstopped.next .fetch trivial rfl
      exact ⟨backup, _, _, unlockPath, hreturned, rfl,
        collectUntil_of_returned hpath hreturned rfl⟩
  | cons item rest =>
      have hreturned := hstopped.next .fetch trivial rfl
      exact ⟨backup, _, _, unlockPath, hreturned, rfl,
        collectUntil_of_returned hpath hreturned rfl⟩

end Bip138.Cli
