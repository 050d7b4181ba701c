/-
# The threads of a decryption with devices

`decrypt` of a build with devices runs three threads. The main thread sends the key of the
key file and waits for a document. The decrypt thread tries the keys as they come in, and
sends the document or an error. The fetch thread asks a signing device for keys, and
sends an error when the device fails where it must not. A stop flag tells the two others
that it is over.

The flag also cuts the decrypt thread short, and both threads send on one channel. A
failure of the device that comes first therefore hides a key that would have decrypted
the backup. When no such failure comes before what the decrypt thread does with the key,
the main thread gets the document in every interleaving (`document_of_timely`).
-/

import Bip138.Rust.Transition
import Bip138.Cli.Document

namespace Bip138.Cli

open Bip138.Rust Bip138.Ll

/-- What is sent on the document channel. -/
abbrev Message := Except CliError Bytes

/-- What the main thread does next. -/
inductive MainThread
  | sendingKey (key : PublicKey)
  | storingStop
  | spawning
  | droppingKeySender
  | droppingDocumentSender
  | receiving
  /-- Nothing was received when every sender was gone. -/
  | stopping (received : Option Message)
  | returned (result : Exec CliError Bytes)

/-- What the decrypt thread does next. -/
inductive DecryptThread
  | waiting (sawKey : Bool)
  | checking (sawKey : Bool) (key : PublicKey)
  | trying (key : PublicKey)
  | storing (message : Exec CliError Bytes)
  | sending (message : Exec CliError Bytes)
  /-- The loop over the keys is over, and the key channel closed. -/
  | ended (sawKey : Bool)
  | refusing (cause : CliError)
  | returned

/-- What the fetch thread does next, with the paths that are left to fetch. -/
inductive FetchThread
  | unspawned
  | starting
  | listing
  | unlocking
  | looping (device : DeviceKind) (rest : List (DerivationPath × Expect))
  | fetching (device : DeviceKind) (path : DerivationPath) (expect : Expect)
      (rest : List (DerivationPath × Expect))
  | sendingKey (key : PublicKey) (device : DeviceKind) (rest : List (DerivationPath × Expect))
  | storingStop (device : DeviceKind) (rest : List (DerivationPath × Expect))
  | failing (cause : FetchFailed)
  | reporting (cause : FetchFailed)
  | returned

/-- The flag, the two channels and the three threads. -/
structure Threads where
  stop : Bool
  keys : List PublicKey
  documents : List Message
  main : MainThread
  decrypt : DecryptThread
  fetch : FetchThread

/-- The next step of a thread. The fetch thread may take one for which a device answers. -/
inductive Action
  | main
  | decrypt
  | fetch
  | listed (device : Option DeviceKind)
  | answered (answer : DeviceAnswer PublicKey)

/-- What a collector is set up with: the paths it fetches from each device, and the path
a BitBox02 is unlocked with. -/
structure Collector where
  paths : DeviceKind → List (DerivationPath × Expect)
  bitboxUnlockPath : DerivationPath

section Code

/-- The senders of the key channel that the main thread holds. -/
def MainThread.holdsKeySender : MainThread → Bool
  | .sendingKey _ | .storingStop | .spawning | .droppingKeySender => true
  | .droppingDocumentSender | .receiving | .stopping _ | .returned _ => false

/-- The fetch thread holds a sender of each channel from its start to its end. -/
def FetchThread.holdsSenders : FetchThread → Bool
  | .unspawned | .returned => false
  | .starting | .listing | .unlocking | .looping _ _ | .fetching _ _ _ _ | .sendingKey _ _ _
  | .storingStop _ _ | .failing _ | .reporting _ => true

/-- The decrypt thread holds the receiver of the key channel as long as its loop runs. -/
def DecryptThread.holdsKeyReceiver : DecryptThread → Bool
  | .waiting _ | .checking _ _ | .trying _ | .storing _ | .sending _ => true
  | .ended _ | .refusing _ | .returned => false

/-- The decrypt thread holds a sender of the document channel to its end. -/
def DecryptThread.holdsDocumentSender : DecryptThread → Bool
  | .returned => false
  | .waiting _ | .checking _ _ | .trying _ | .storing _ | .sending _ | .ended _ | .refusing _ =>
      true

/-- What the main thread makes of what it received. -/
def received : Option Message → Exec CliError Bytes
  | none => .fail .noKeys
  | some (.error cause) => .fail cause
  | some (.ok document) => .ok document

/-- The threads when the decrypt thread is spawned. -/
def start (key : Option DescriptorPublicKey) : Threads where
  stop := false
  keys := []
  documents := []
  decrypt := .waiting false
  fetch := .unspawned
  main := match key with
    | none => .spawning
    | some key => match Exec.mapErr CliError.failedToDecrypt (dpkToRootPk key) with
      | .ok root => .sendingKey root
      | .error fault => .returned (.error fault)

def mainStep (threads : Threads) : Option Threads :=
  match threads.main with
  | .sendingKey key =>
      if threads.decrypt.holdsKeyReceiver then
        some { threads with keys := threads.keys ++ [key], main := .spawning }
      else some { threads with main := .storingStop }
  | .storingStop => some { threads with stop := true, main := .spawning }
  | .spawning => some { threads with fetch := .starting, main := .droppingKeySender }
  | .droppingKeySender => some { threads with main := .droppingDocumentSender }
  | .droppingDocumentSender => some { threads with main := .receiving }
  | .receiving => match threads.documents with
      | message :: documents =>
          some { threads with documents := documents, main := .stopping (some message) }
      | [] =>
          if threads.decrypt.holdsDocumentSender || threads.fetch.holdsSenders then none
          else some { threads with main := .stopping none }
  | .stopping message => some { threads with stop := true, main := .returned (received message) }
  | .returned _ => none

section Decrypting

variable [Target] [Miniscript] [SerdeJson] [Serde DescriptorBackup] [Serde PolicySet]
  [Serde PolicyBackup] [V0] (crypto : Crypto) (backup : EncryptedBackup)

/-- What the decrypt thread does with a key it was told to try. A panic ends it. -/
def tryKey (key : PublicKey) : DecryptThread :=
  match (backup.setKeys [key]).decrypt crypto with
  | .ok decrypted => .storing (decryptedToDocument decrypted)
  | .error (.error .wrongKey) | .error (.error .noKey) => .waiting true
  | .error (.error cause) => .storing (.fail (.failedToDecrypt cause))
  | .error (.panic _) | .error .unfinished => .returned

def decryptStep (threads : Threads) : Option Threads :=
  match threads.decrypt with
  | .waiting sawKey => match threads.keys with
      | key :: keys => some { threads with keys := keys, decrypt := .checking sawKey key }
      | [] =>
          if threads.main.holdsKeySender || threads.fetch.holdsSenders then none
          else some { threads with decrypt := .ended sawKey }
  | .checking sawKey key =>
      if threads.stop then some { threads with decrypt := .ended sawKey }
      else some { threads with decrypt := .trying key }
  | .trying key => some { threads with decrypt := tryKey crypto backup key }
  | .storing message => some { threads with stop := true, decrypt := .sending message }
  | .sending message => match message with
      | .ok document =>
          some { threads with documents := threads.documents ++ [.ok document], decrypt := .returned }
      | .error (.error cause) =>
          some { threads with documents := threads.documents ++ [.error cause], decrypt := .returned }
      | .error (.panic _) | .error .unfinished => some { threads with decrypt := .returned }
  | .ended sawKey =>
      if threads.stop then some { threads with decrypt := .returned }
      else some { threads with
        decrypt := .refusing (if sawKey then .failedToDecrypt .wrongKey else .noKeys) }
  | .refusing cause =>
      some { threads with documents := threads.documents ++ [.error cause], decrypt := .returned }
  | .returned => none

end Decrypting

/-- What follows when a device did not yield the key at a path. -/
def notFetched (device : DeviceKind) (path : DerivationPath) (expect : Expect)
    (rest : List (DerivationPath × Expect)) (error : String) : FetchThread :=
  match expect with
  | .mustFetch => .failing ⟨device, path, expect, error⟩
  | .promptUser | .canFail => .looping device rest

/-- What a thread is at when it has got a device. -/
def unlockBitbox (collector : Collector) : DeviceKind → FetchThread
  | .bitBox02 => .unlocking
  | device => .looping device (collector.paths device)

def fetchStep (collector : Collector) (threads : Threads) (action : Action) : Option Threads :=
  match threads.fetch, action with
  | .starting, .fetch =>
      if threads.stop then some { threads with fetch := .returned }
      else some { threads with fetch := .listing }
  | .listing, .listed none => some { threads with fetch := .returned }
  | .listing, .listed (some device) => some { threads with fetch := unlockBitbox collector device }
  | .unlocking, .answered (.xpub _) =>
      some { threads with fetch := .looping .bitBox02 (collector.paths .bitBox02) }
  | .unlocking, .answered (.failed error) => some { threads with
      fetch := .failing ⟨.bitBox02, collector.bitboxUnlockPath, .promptUser, error⟩ }
  | .unlocking, .answered .timedOut => some { threads with
      fetch := .failing ⟨.bitBox02, collector.bitboxUnlockPath, .promptUser, "Timed out"⟩ }
  | .looping _ [], .fetch => some { threads with fetch := .returned }
  | .looping device ((path, expect) :: rest), .fetch =>
      if threads.stop then some { threads with fetch := .returned }
      else some { threads with fetch := .fetching device path expect rest }
  | .fetching device _ _ rest, .answered (.xpub key) =>
      some { threads with fetch := .sendingKey key device rest }
  | .fetching device path expect rest, .answered (.failed error) =>
      some { threads with fetch := notFetched device path expect rest error }
  | .fetching device path expect rest, .answered .timedOut =>
      some { threads with fetch := notFetched device path expect rest "Timed out" }
  | .sendingKey key device rest, .fetch =>
      if threads.decrypt.holdsKeyReceiver then
        some { threads with keys := threads.keys ++ [key], fetch := .looping device rest }
      else some { threads with fetch := .storingStop device rest }
  | .storingStop device rest, .fetch =>
      some { threads with stop := true, fetch := .looping device rest }
  | .failing cause, .fetch => some { threads with stop := true, fetch := .reporting cause }
  | .reporting cause, .fetch => some { threads with
      documents := threads.documents ++ [.error (.failedToFetchXpub cause)], fetch := .returned }
  | _, _ => none

section Stepping

variable [Target] [Miniscript] [SerdeJson] [Serde DescriptorBackup] [Serde PolicySet]
  [Serde PolicyBackup] [V0] (crypto : Crypto) (backup : EncryptedBackup) (collector : Collector)

/-- One step of one thread. -/
def step (threads : Threads) : Action → Option Threads
  | .main => mainStep threads
  | .decrypt => decryptStep crypto backup threads
  | action => fetchStep collector threads action

end Stepping

end Code

/-! ## What a step can do -/

section Steps

variable {threads later : Threads}

/-- The main thread has sent the key and still waits for a document. -/
def MainThread.Waits : MainThread → Prop
  | .spawning | .droppingKeySender | .droppingDocumentSender | .receiving => True
  | .sendingKey _ | .storingStop | .stopping _ | .returned _ => False

/-- What the main thread does while it waits. -/
inductive MainEffect (threads : Threads) : Threads → Prop
  | moves (main : MainThread) (hmain : main.Waits) :
      MainEffect threads { threads with main := main }
  | spawns : MainEffect threads { threads with main := .droppingKeySender, fetch := .starting }
  | receives (message : Message) (documents : List Message)
      (hdocuments : threads.documents = message :: documents) :
      MainEffect threads { threads with documents := documents, main := .stopping (some message) }
  | givesUp (hdocuments : threads.documents = [])
      (hsenders : threads.decrypt.holdsDocumentSender = false) :
      MainEffect threads { threads with main := .stopping none }

theorem mainEffect_of_mainStep (hwaits : threads.main.Waits)
    (hstep : mainStep threads = some later) : MainEffect threads later := by
  revert hstep
  fun_cases mainStep threads with
  | case1 key hmain _ | case2 key hmain _ | case3 hmain | case10 message hmain | case11 result hmain =>
      rw [hmain] at hwaits
      cases hwaits
  | case4 hmain =>
      rintro ⟨⟩
      exact .spawns
  | case5 hmain =>
      rintro ⟨⟩
      exact .moves .droppingDocumentSender trivial
  | case6 hmain =>
      rintro ⟨⟩
      exact .moves .receiving trivial
  | case7 hmain message documents hdocuments =>
      rintro ⟨⟩
      exact .receives message documents hdocuments
  | case8 hmain hdocuments hsenders => exact fun hstep => nomatch hstep
  | case9 hmain hdocuments hsenders =>
      rintro ⟨⟩
      simp only [Bool.or_eq_true, not_or, Bool.not_eq_true] at hsenders
      exact .givesUp hdocuments hsenders.1

/-- The fetch thread is about to store the flag because the key channel is closed, or it
has stored the flag and not sent its error yet. -/
def FetchThread.Stops : FetchThread → Prop
  | .storingStop _ _ | .reporting _ => True
  | .unspawned | .starting | .listing | .unlocking | .looping _ _ | .fetching _ _ _ _
  | .sendingKey _ _ _ | .failing _ | .returned => False

theorem not_stops_notFetched (device : DeviceKind) (path : DerivationPath) (expect : Expect)
    (rest : List (DerivationPath × Expect)) (error : String) :
    ¬ (notFetched device path expect rest error).Stops := by
  cases expect with
  | promptUser => exact id
  | mustFetch => exact id
  | canFail => exact id

theorem not_stops_unlockBitbox (collector : Collector) (device : DeviceKind) :
    ¬ (unlockBitbox collector device).Stops := by
  cases device with
  | bitBox02 => exact id
  | coldcard | ledger | ledgerSimulator | specter | specterSimulator | jade => exact id

/-- What a step of the fetch thread does to the others. -/
inductive FetchEffect (threads : Threads) : Action → Threads → Prop
  | moves (action : Action) (fetch : FetchThread)
      (hfetch : fetch.Stops → threads.decrypt.holdsKeyReceiver = false) :
      FetchEffect threads action { threads with fetch := fetch }
  | sends (key : PublicKey) (fetch : FetchThread) (hfetch : ¬ fetch.Stops) :
      FetchEffect threads .fetch { threads with keys := threads.keys ++ [key], fetch := fetch }
  | stops (fetch : FetchThread) (hat : threads.fetch.Stops) :
      FetchEffect threads .fetch { threads with stop := true, fetch := fetch }
  | fails (cause : FetchFailed) (hat : threads.fetch = .failing cause) :
      FetchEffect threads .fetch { threads with stop := true, fetch := .reporting cause }
  | reports (cause : FetchFailed) (hat : threads.fetch = .reporting cause) :
      FetchEffect threads .fetch { threads with
        documents := threads.documents ++ [.error (.failedToFetchXpub cause)]
        fetch := .returned }

theorem fetchEffect_of_fetchStep {collector : Collector} {action : Action}
    (hstep : fetchStep collector threads action = some later) :
    FetchEffect threads action later := by
  have hquiet : ∀ fetch : FetchThread, ¬ fetch.Stops →
      FetchEffect threads action { threads with fetch := fetch } :=
    fun fetch hfetch => .moves action fetch fun hstops => absurd hstops hfetch
  revert hstep
  fun_cases fetchStep collector threads action with
  | case1 | case2 | case3 | case5 | case6 | case7 | case8 | case9 | case10 | case11 =>
      rintro ⟨⟩
      exact hquiet _ id
  | case4 device _ =>
      rintro ⟨⟩
      exact hquiet _ (not_stops_unlockBitbox collector device)
  | case12 device path expect rest error _ =>
      rintro ⟨⟩
      exact hquiet _ (not_stops_notFetched device path expect rest error)
  | case13 device path expect rest _ =>
      rintro ⟨⟩
      exact hquiet _ (not_stops_notFetched device path expect rest "Timed out")
  | case14 key device rest _ _ =>
      rintro ⟨⟩
      exact .sends key _ id
  | case15 key device rest _ hclosed =>
      rintro ⟨⟩
      exact .moves _ _ fun _ => Bool.eq_false_iff.mpr hclosed
  | case16 device rest hat =>
      rintro ⟨⟩
      exact .stops _ (by rw [hat]; trivial)
  | case17 cause hat =>
      rintro ⟨⟩
      exact .fails cause hat
  | case18 cause hat =>
      rintro ⟨⟩
      exact .reports cause hat
  | case19 => exact fun hstep => nomatch hstep

end Steps

/-! ## Every run ends -/

section Work

/-- The paths of all devices. -/
def Collector.pathCount (collector : Collector) : ℕ :=
  ([.bitBox02, .coldcard, .ledger, .ledgerSimulator, .specter, .specterSimulator, .jade].map
    fun device => (collector.paths device).length).sum

theorem Collector.length_paths_le (collector : Collector) (device : DeviceKind) :
    (collector.paths device).length ≤ collector.pathCount := by
  simp only [Collector.pathCount, List.map_cons, List.map_nil, List.sum_cons, List.sum_nil]
  cases device with
  | bitBox02 | coldcard | ledger | ledgerSimulator | specter | specterSimulator | jade => omega

/-- The steps a decrypt thread has left when no key comes in. -/
def DecryptThread.work : DecryptThread → ℕ
  | .checking _ _ => 5
  | .trying _ => 4
  | .waiting _ => 3
  | .storing _ | .ended _ => 2
  | .sending _ | .refusing _ => 1
  | .returned => 0

/-- The steps a fetch thread has left, and those of the decrypt thread for the keys it may
still send. -/
def FetchThread.work (collector : Collector) : FetchThread → ℕ
  | .starting => 5 + 7 * collector.pathCount
  | .listing => 4 + 7 * collector.pathCount
  | .unlocking => 3 + 7 * collector.pathCount
  | .looping _ rest => 2 + 7 * rest.length
  | .fetching _ _ _ rest => 8 + 7 * rest.length
  | .sendingKey _ _ rest => 7 + 7 * rest.length
  | .storingStop _ rest => 3 + 7 * rest.length
  | .failing _ => 2
  | .reporting _ => 1
  | .unspawned | .returned => 0

/-- The steps a main thread has left, and those of the others that it has still to give
cause for. -/
def MainThread.work (collector : Collector) : MainThread → ℕ
  | .sendingKey _ => 14 + 7 * collector.pathCount
  | .storingStop => 11 + 7 * collector.pathCount
  | .spawning => 10 + 7 * collector.pathCount
  | .droppingKeySender => 4
  | .droppingDocumentSender => 3
  | .receiving => 2
  | .stopping _ => 1
  | .returned _ => 0

/-- A bound on the steps that are left. A key that waits in its channel takes three. -/
def Threads.work (collector : Collector) (threads : Threads) : ℕ :=
  threads.main.work collector + threads.decrypt.work + 3 * threads.keys.length +
    threads.fetch.work collector

variable {threads later : Threads} {collector : Collector}

theorem work_notFetched_le (collector : Collector) (device : DeviceKind) (path : DerivationPath)
    (expect : Expect) (rest : List (DerivationPath × Expect)) (error : String) :
    (notFetched device path expect rest error).work collector ≤ 2 + 7 * rest.length := by
  cases expect with
  | mustFetch => exact Nat.le_add_right 2 _
  | promptUser | canFail => exact le_refl _

theorem work_unlockBitbox_le (collector : Collector) (device : DeviceKind) :
    (unlockBitbox collector device).work collector ≤ 3 + 7 * collector.pathCount := by
  have hpaths := collector.length_paths_le device
  cases device with
  | bitBox02 => exact le_refl _
  | coldcard | ledger | ledgerSimulator | specter | specterSimulator | jade =>
      simp only [unlockBitbox, FetchThread.work]
      omega

theorem work_lt_of_mainStep (hstep : mainStep threads = some later) :
    later.work collector < threads.work collector := by
  revert hstep
  fun_cases mainStep threads with
  | case1 key hmain _ | case2 key hmain _ | case3 hmain | case4 hmain | case5 hmain | case6 hmain
  | case7 hmain _ _ _ | case9 hmain _ _ | case10 message hmain =>
      rintro ⟨⟩
      simp only [Threads.work, hmain, MainThread.work, FetchThread.work, List.length_append,
        List.length_singleton]
      omega
  | case8 | case11 => exact fun hstep => nomatch hstep

theorem work_lt_of_fetchStep {action : Action}
    (hstep : fetchStep collector threads action = some later) :
    later.work collector < threads.work collector := by
  revert hstep
  fun_cases fetchStep collector threads action with
  | case1 hat _ | case2 hat _ | case3 hat | case6 _ hat | case7 hat | case8 _ hat
  | case9 _ _ _ _ hat _ | case10 _ _ _ _ hat _ | case11 _ _ _ _ _ hat | case14 _ _ _ hat _
  | case15 _ _ _ hat _ | case16 _ _ hat | case17 _ hat | case18 _ hat =>
      rintro ⟨⟩
      simp only [Threads.work, hat, FetchThread.work, List.length_append, List.length_cons,
        List.length_nil]
      omega
  | case4 device hat =>
      rintro ⟨⟩
      have hwork := work_unlockBitbox_le collector device
      simp only [Threads.work, hat, FetchThread.work] at hwork ⊢
      omega
  | case5 _ hat =>
      rintro ⟨⟩
      have hpaths := collector.length_paths_le .bitBox02
      simp only [Threads.work, hat, FetchThread.work]
      omega
  | case12 device path expect rest error hat =>
      rintro ⟨⟩
      have hwork := work_notFetched_le collector device path expect rest error
      simp only [Threads.work, hat, FetchThread.work] at hwork ⊢
      omega
  | case13 device path expect rest hat =>
      rintro ⟨⟩
      have hwork := work_notFetched_le collector device path expect rest "Timed out"
      simp only [Threads.work, hat, FetchThread.work] at hwork ⊢
      omega
  | case19 => exact fun hstep => nomatch hstep

variable [Target] [Miniscript] [SerdeJson] [Serde DescriptorBackup] [Serde PolicySet]
  [Serde PolicyBackup] [V0] {crypto : Crypto} {backup : EncryptedBackup}

theorem work_tryKey_le (crypto : Crypto) (backup : EncryptedBackup) (key : PublicKey) :
    (tryKey crypto backup key).work ≤ 3 := by
  fun_cases tryKey crypto backup key with
  | case1 | case2 | case3 | case4 | case5 | case6 => simp [DecryptThread.work]

theorem work_lt_of_decryptStep (hstep : decryptStep crypto backup threads = some later) :
    later.work collector < threads.work collector := by
  revert hstep
  fun_cases decryptStep crypto backup threads with
  | case1 sawKey hat key keys hkeys =>
      rintro ⟨⟩
      simp only [Threads.work, hat, hkeys, DecryptThread.work, List.length_cons]
      omega
  | case3 _ hat _ _ | case4 _ _ hat _ | case5 _ _ hat _ | case7 _ hat | case8 _ hat | case9 _ hat
  | case10 _ hat | case11 hat | case12 _ hat _ | case13 _ hat _ | case14 _ hat =>
      rintro ⟨⟩
      simp only [Threads.work, hat, DecryptThread.work]
      omega
  | case6 key hat =>
      rintro ⟨⟩
      have hwork := work_tryKey_le crypto backup key
      simp only [Threads.work, hat, DecryptThread.work] at hwork ⊢
      omega
  | case2 | case15 => exact fun hstep => nomatch hstep

/-- Every step leaves less to do. -/
theorem work_lt_of_step {action : Action}
    (hstep : step crypto backup collector threads action = some later) :
    later.work collector < threads.work collector := by
  cases action with
  | main => exact work_lt_of_mainStep hstep
  | decrypt => exact work_lt_of_decryptStep hstep
  | fetch | listed _ | answered _ => exact work_lt_of_fetchStep hstep

end Work

/-! ## A key that decrypts -/

/-- The decrypt thread has let its key pass the flag. -/
def DecryptThread.Passed : DecryptThread → Prop
  | .waiting _ | .checking _ _ => False
  | .trying _ | .storing _ | .sending _ | .ended _ | .refusing _ | .returned => True

/-- A failure of the device stores the flag only when the decrypt thread has read it, and
is sent only when the decrypt thread is done. -/
def Timely (threads : Threads) : Action → Prop
  | .fetch => match threads.fetch with
      | .failing _ => threads.decrypt.Passed
      | .reporting _ => threads.decrypt = .returned
      | _ => True
  | .main | .decrypt | .listed _ | .answered _ => True

/-- Where the threads of a timely run stand when the key of the key file decrypts. -/
inductive OnCourse (root : PublicKey) (document : Bytes) : Threads → Prop
  | unsent : OnCourse root document ⟨false, [], [], .sendingKey root, .waiting false, .unspawned⟩
  | waiting (keys : List PublicKey) (main : MainThread) (fetch : FetchThread) (hmain : main.Waits)
      (hfetch : ¬ fetch.Stops) :
      OnCourse root document ⟨false, root :: keys, [], main, .waiting false, fetch⟩
  | checking (keys : List PublicKey) (main : MainThread) (fetch : FetchThread)
      (hmain : main.Waits) (hfetch : ¬ fetch.Stops) :
      OnCourse root document ⟨false, keys, [], main, .checking false root, fetch⟩
  | passed (stop : Bool) (keys : List PublicKey) (main : MainThread) (decrypt : DecryptThread)
      (fetch : FetchThread) (hmain : main.Waits)
      (hdecrypt : decrypt = .trying root ∨ decrypt = .storing (.ok document) ∨
        decrypt = .sending (.ok document)) :
      OnCourse root document ⟨stop, keys, [], main, decrypt, fetch⟩
  | sent (stop : Bool) (keys : List PublicKey) (documents : List Message) (main : MainThread)
      (fetch : FetchThread) (hmain : main.Waits) :
      OnCourse root document ⟨stop, keys, .ok document :: documents, main, .returned, fetch⟩
  | received (stop : Bool) (keys : List PublicKey) (documents : List Message)
      (main : MainThread) (fetch : FetchThread)
      (hmain : main = .stopping (some (.ok document)) ∨ main = .returned (.ok document)) :
      OnCourse root document ⟨stop, keys, documents, main, .returned, fetch⟩

section Course

variable {root : PublicKey} {document : Bytes} {threads later : Threads}

theorem onCourse_start {key : DescriptorPublicKey} (hroot : dpkToRootPk key = .ok root) :
    OnCourse root document (start (some key)) := by
  rw [start, hroot]
  exact .unsent

theorem OnCourse.mainStep (hcourse : OnCourse root document threads)
    (hstep : mainStep threads = some later) : OnCourse root document later := by
  cases hcourse with
  | unsent =>
      obtain rfl := Option.some.inj hstep
      exact .waiting [] _ _ trivial id
  | waiting keys main fetch hmain hfetch =>
      cases mainEffect_of_mainStep hmain hstep with
      | moves main hmain => exact .waiting keys main fetch hmain hfetch
      | spawns => exact .waiting keys _ _ trivial id
      | receives _ _ hdocuments => cases hdocuments
      | givesUp _ hsenders => cases hsenders
  | checking keys main fetch hmain hfetch =>
      cases mainEffect_of_mainStep hmain hstep with
      | moves main hmain => exact .checking keys main fetch hmain hfetch
      | spawns => exact .checking keys _ _ trivial id
      | receives _ _ hdocuments => cases hdocuments
      | givesUp _ hsenders => cases hsenders
  | passed stop keys main decrypt fetch hmain hdecrypt =>
      cases mainEffect_of_mainStep hmain hstep with
      | moves main hmain => exact .passed stop keys main decrypt fetch hmain hdecrypt
      | spawns => exact .passed stop keys _ decrypt _ trivial hdecrypt
      | receives _ _ hdocuments => cases hdocuments
      | givesUp _ hsenders =>
          rcases hdecrypt with rfl | rfl | rfl
          · cases hsenders
          · cases hsenders
          · cases hsenders
  | sent stop keys documents main fetch hmain =>
      cases mainEffect_of_mainStep hmain hstep with
      | moves main hmain => exact .sent stop keys documents main fetch hmain
      | spawns => exact .sent stop keys documents _ _ trivial
      | receives _ _ hdocuments =>
          cases hdocuments
          exact .received stop keys documents _ fetch (.inl rfl)
      | givesUp hdocuments _ => cases hdocuments
  | received stop keys documents main fetch hmain =>
      rcases hmain with rfl | rfl
      · obtain rfl := Option.some.inj hstep
        exact .received true keys documents _ fetch (.inr rfl)
      · cases hstep

theorem OnCourse.fetchStep {collector : Collector} {action : Action}
    (hcourse : OnCourse root document threads) (htimely : Timely threads action)
    (hstep : fetchStep collector threads action = some later) : OnCourse root document later := by
  cases hcourse with
  | unsent => cases hstep
  | waiting keys main fetch hmain hfetch =>
      cases fetchEffect_of_fetchStep hstep with
      | moves _ next hnext =>
          exact .waiting keys main next hmain fun hstops => nomatch hnext hstops
      | sends key next hnext => exact .waiting (keys ++ [key]) main next hmain hnext
      | stops _ hat => exact absurd hat hfetch
      | fails cause hat =>
          obtain rfl : fetch = .failing cause := hat
          cases htimely
      | reports cause hat =>
          obtain rfl : fetch = .reporting cause := hat
          exact absurd trivial hfetch
  | checking keys main fetch hmain hfetch =>
      cases fetchEffect_of_fetchStep hstep with
      | moves _ next hnext =>
          exact .checking keys main next hmain fun hstops => nomatch hnext hstops
      | sends key next hnext => exact .checking (keys ++ [key]) main next hmain hnext
      | stops _ hat => exact absurd hat hfetch
      | fails cause hat =>
          obtain rfl : fetch = .failing cause := hat
          cases htimely
      | reports cause hat =>
          obtain rfl : fetch = .reporting cause := hat
          exact absurd trivial hfetch
  | passed stop keys main decrypt fetch hmain hdecrypt =>
      cases fetchEffect_of_fetchStep hstep with
      | moves _ next _ => exact .passed stop keys main decrypt next hmain hdecrypt
      | sends key next _ => exact .passed stop (keys ++ [key]) main decrypt next hmain hdecrypt
      | stops next _ => exact .passed true keys main decrypt next hmain hdecrypt
      | fails cause _ => exact .passed true keys main decrypt _ hmain hdecrypt
      | reports cause hat =>
          obtain rfl : fetch = .reporting cause := hat
          obtain rfl : decrypt = .returned := htimely
          rcases hdecrypt with hdecrypt | hdecrypt | hdecrypt
          · cases hdecrypt
          · cases hdecrypt
          · cases hdecrypt
  | sent stop keys documents main fetch hmain =>
      cases fetchEffect_of_fetchStep hstep with
      | moves _ next _ => exact .sent stop keys documents main next hmain
      | sends key next _ => exact .sent stop (keys ++ [key]) documents main next hmain
      | stops next _ => exact .sent true keys documents main next hmain
      | fails cause _ => exact .sent true keys documents main _ hmain
      | reports cause _ => exact .sent stop keys (documents ++ [_]) main _ hmain
  | received stop keys documents main fetch hmain =>
      cases fetchEffect_of_fetchStep hstep with
      | moves _ next _ => exact .received stop keys documents main next hmain
      | sends key next _ => exact .received stop (keys ++ [key]) documents main next hmain
      | stops next _ => exact .received true keys documents main next hmain
      | fails cause _ => exact .received true keys documents main _ hmain
      | reports cause _ => exact .received stop keys (documents ++ [_]) main _ hmain

variable [Target] [Miniscript] [SerdeJson] [Serde DescriptorBackup] [Serde PolicySet]
  [Serde PolicyBackup] [V0] {crypto : Crypto} {backup : EncryptedBackup} {collector : Collector}
  {key : DescriptorPublicKey}

/-- A key that decrypts is answered with the document. -/
theorem tryKey_eq (hdocument : decryptDocument crypto (backup.setKeys [root]) = .ok document) :
    tryKey crypto backup root = .storing (.ok document) := by
  obtain ⟨decrypted, hdecrypted, hprint⟩ := Exec.bind_eq_ok_iff.mp hdocument
  rw [tryKey, Exec.mapErr_eq_ok_iff.mp hdecrypted]
  exact congrArg DecryptThread.storing hprint

theorem OnCourse.decryptStep
    (hdocument : decryptDocument crypto (backup.setKeys [root]) = .ok document)
    (hcourse : OnCourse root document threads)
    (hstep : decryptStep crypto backup threads = some later) : OnCourse root document later := by
  cases hcourse with
  | unsent => cases hstep
  | waiting keys main fetch hmain hfetch =>
      obtain rfl := Option.some.inj hstep
      exact .checking keys main fetch hmain hfetch
  | checking keys main fetch hmain hfetch =>
      obtain rfl := Option.some.inj hstep
      exact .passed false keys main _ fetch hmain (.inl rfl)
  | passed stop keys main decrypt fetch hmain hdecrypt =>
      rcases hdecrypt with rfl | rfl | rfl
      · obtain rfl := Option.some.inj hstep
        exact .passed stop keys main _ fetch hmain (.inr (.inl (tryKey_eq hdocument)))
      · obtain rfl := Option.some.inj hstep
        exact .passed true keys main _ fetch hmain (.inr (.inr rfl))
      · obtain rfl := Option.some.inj hstep
        exact .sent stop keys [] main fetch hmain
  | sent stop keys documents main fetch hmain => cases hstep
  | received stop keys documents main fetch hmain => cases hstep

/-- A timely step stays on course. -/
theorem OnCourse.step {action : Action}
    (hdocument : decryptDocument crypto (backup.setKeys [root]) = .ok document)
    (hcourse : OnCourse root document threads) (htimely : Timely threads action)
    (hstep : step crypto backup collector threads action = some later) :
    OnCourse root document later := by
  cases action with
  | main => exact hcourse.mainStep hstep
  | decrypt => exact hcourse.decryptStep hdocument hstep
  | fetch | listed _ | answered _ => exact hcourse.fetchStep htimely hstep

/-- On course, some thread can go on until the main thread has returned the document. -/
theorem OnCourse.main_eq_of_stuck (hcourse : OnCourse root document threads)
    (hstuck : ∀ action, Cli.step crypto backup collector threads action = none) :
    threads.main = .returned (.ok document) := by
  cases hcourse with
  | unsent => cases hstuck .main
  | waiting keys main fetch hmain hfetch => cases hstuck .decrypt
  | checking keys main fetch hmain hfetch => cases hstuck .decrypt
  | passed stop keys main decrypt fetch hmain hdecrypt =>
      rcases hdecrypt with rfl | rfl | rfl
      · cases hstuck .decrypt
      · cases hstuck .decrypt
      · cases hstuck .decrypt
  | sent stop keys documents main fetch hmain =>
      have hgoes : Cli.mainStep ⟨stop, keys, .ok document :: documents, main, .returned, fetch⟩ =
          none := hstuck .main
      cases main with
      | spawning | droppingKeySender | droppingDocumentSender | receiving => cases hgoes
      | sendingKey _ | storingStop | stopping _ | returned _ => cases hmain
  | received stop keys documents main fetch hmain =>
      rcases hmain with rfl | rfl
      · cases hstuck .main
      · rfl

/-- Whenever the key of the key file decrypts the backup and the fetch thread does not get
ahead with a failure, the main thread returns the document: it returns nothing else, no
run is stuck before, and every run ends. -/
theorem main_returns_document (hroot : dpkToRootPk key = .ok root)
    (hdocument : decryptDocument crypto (backup.setKeys [root]) = .ok document)
    (hreachable : Reachable (Cli.step crypto backup collector) Timely (start (some key)) threads) :
    (∀ result, threads.main = .returned result → result = .ok document) ∧
    ((∀ action, Cli.step crypto backup collector threads action = none) →
      threads.main = .returned (.ok document)) ∧
    ∀ (actions : List Action) (later : Threads),
      actions.foldlM (Cli.step crypto backup collector) threads = some later →
        actions.length ≤ threads.work collector := by
  have hcourse : OnCourse root document threads :=
    hreachable.invariant (onCourse_start hroot) fun _ _ _ hcourse htimely hstep =>
      hcourse.step hdocument htimely hstep
  refine ⟨fun result hresult => ?_, hcourse.main_eq_of_stuck, fun actions later hrun => ?_⟩
  · cases hcourse with
    | unsent => cases hresult
    | waiting _ _ _ hmain _ | checking _ _ _ hmain _ | passed _ _ _ _ _ hmain _
    | sent _ _ _ _ _ hmain =>
        obtain rfl := hresult
        cases hmain
    | received _ _ _ _ _ hmain =>
        obtain rfl := hresult
        rcases hmain with hmain | hmain
        · cases hmain
        · exact MainThread.returned.inj hmain
  · exact length_le_of_run (fun _ _ _ hstep => work_lt_of_step hstep) hrun

end Course

/-! ## One path, and a Ledger that refuses it -/

namespace Sample

open Bip138.Sample

/-- A key expression with the root of the holder. -/
def holderKey : DescriptorPublicKey := .xPub ⟨none, { xkey with publicKey := holder }, [], .none⟩

def legacyPath : DerivationPath := [hardened 44, hardened 0, hardened 0]

def onePath : Collector where
  paths _ := [(legacyPath, .mustFetch)]
  bitboxUnlockPath := legacyPath

def refusal : FetchFailed := ⟨.ledger, legacyPath, .mustFetch, "refused"⟩

def letterItems : List (Content × Bytes) := [(.string, [0x61])]

/-- The holder decrypts a backup of one letter. -/
theorem exists_decryptDocument_letter :
    ∃ backup : EncryptedBackup,
      decryptDocument sampleCrypto (backup.setKeys [holder]) = .ok (asBytes "a") := by
  obtain ⟨backup, hkeys, hreaches⟩ :=
    exists_reachesExtraction [0x03, 0x00, 0x01, 0x61] letterItems (by decide +kernel)
  have hdecrypt : backup.decrypt sampleCrypto = .ok [.string "a"] := by
    obtain ⟨_, _, _, hpayload, -⟩ := id hreaches
    refine (EncryptedBackup.decryptWith_eq_ok_iff hpayload).mpr ⟨letterItems, hreaches, ?_⟩
    rfl
  refine ⟨backup, ?_⟩
  rw [hkeys, decryptDocument, hdecrypt]
  rfl

/-- The device refuses its path before anything else happens. -/
def refusedFirst : List Action :=
  [.main, .main, .fetch, .listed (some .ledger), .fetch, .answered (.failed "refused"), .fetch,
    .fetch, .main, .main, .main, .main]

end Sample

open Cli.Sample Bip138.Sample in
/-- The device refuses its path when the decrypt thread has let the key pass. -/
theorem main_returns_document_refusedLater :
    ∃ (backup : EncryptedBackup) (threads : Threads),
      Reachable (step sampleCrypto backup onePath) Timely (start (some holderKey)) threads ∧
      threads.fetch = .reporting refusal ∧
      (∀ result, threads.main = .returned result → result = .ok (asBytes "a")) ∧
      ((∀ action, step sampleCrypto backup onePath threads action = none) →
        threads.main = .returned (.ok (asBytes "a"))) ∧
      ∀ (actions : List Action) (later : Threads),
        actions.foldlM (step sampleCrypto backup onePath) threads = some later →
          actions.length ≤ threads.work onePath := by
  obtain ⟨backup, hdocument⟩ := exists_decryptDocument_letter
  have hlisted : Reachable (step sampleCrypto backup onePath) Timely (start (some holderKey)) _ :=
    (((Reachable.start.next .main trivial rfl).next .main trivial rfl).next .fetch trivial rfl).next
      (.listed (some .ledger)) trivial rfl
  have hasked := hlisted.next .fetch trivial rfl
  have hrefused := hasked.next (.answered (.failed "refused")) trivial rfl
  have hpassed := (hrefused.next .decrypt trivial rfl).next .decrypt trivial rfl
  have hstored := hpassed.next .fetch trivial rfl
  exact ⟨backup, _, hstored, rfl, main_returns_document rfl hdocument hstored⟩

open Cli.Sample Bip138.Sample in
/-- The main thread returns the error of the device although the key of the key file, sent
before the fetch thread was started, decrypts the backup. -/
theorem main_returns_refusal :
    ∃ (backup : EncryptedBackup) (threads : Threads),
      dpkToRootPk holderKey = .ok holder ∧
      decryptDocument sampleCrypto (backup.setKeys [holder]) = .ok (asBytes "a") ∧
      Reachable (step sampleCrypto backup onePath) (fun _ _ => True) (start (some holderKey))
        threads ∧
      threads.main = .returned (.fail (.failedToFetchXpub refusal)) := by
  obtain ⟨backup, hdocument⟩ := exists_decryptDocument_letter
  have hrefused : Reachable (step sampleCrypto backup onePath) (fun _ _ => True)
      (start (some holderKey)) _ :=
    Reachable.start.of_run refusedFirst (fun _ _ => trivial) rfl
  exact ⟨backup, _, rfl, hdocument, hrefused, rfl⟩

end Bip138.Cli
