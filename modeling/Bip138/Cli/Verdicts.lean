/-
# What a decryption with devices ends with

The three threads of `decrypt` race on two channels and a flag, and which of them is heard
depends on the schedule. Two things do not. In every interleaving the main thread returns,
after a bounded number of steps (`main_returns`); and a document it returns is what a key of
the key file, or one a device granted at a planned path, decrypts the backup to, while every
error has its cause in the run (`verdict_of_returned`).
-/

import Bip138.Cli.Threads

namespace Bip138.Cli

open Bip138.Rust Bip138.Ll

/-! ## The errors of the printer -/

section Printing

variable [Miniscript] [SerdeJson] [Serde DescriptorBackup] [Serde PolicySet] [Serde PolicyBackup]

omit [Miniscript] [SerdeJson] [Serde DescriptorBackup] [Serde PolicySet] [Serde PolicyBackup] in
/-- A document that is not written is an error of its own. -/
theorem written_ne_fail {cause : CliError}
    (hcause : cause = .noKeys ∨ cause = .failedToDecrypt .wrongKey) (written : Option Bytes) :
    Exec.mapErr CliError.failedToDecrypt (.okOr written Error.descriptorBackup) ≠ .fail cause := by
  rcases written with _ | bytes
  · rcases hcause with rfl | rfl
    · exact fun hsame => by cases hsame
    · exact fun hsame => by cases hsame
  · exact (Exec.fail_ne_ok cause bytes).symm

/-- Printing is never refused for a missing or a wrong key. -/
theorem decryptedToDocument_ne_fail {decrypted : List (Decrypted NoProprietary)} {cause : CliError}
    (hcause : cause = .noKeys ∨ cause = .failedToDecrypt .wrongKey) :
    decryptedToDocument decrypted ≠ .fail cause := by
  have hbytes : ∀ value, decryptedToBytes value ≠ .fail cause := by
    intro value
    cases value with
    | descriptor | string | bip138 => exact (Exec.fail_ne_ok cause _).symm
    | policy | labels | walletBackup | raw | proprietary =>
        rcases hcause with rfl | rfl <;> simp [decryptedToBytes]
    | descriptorBackup backup => exact written_ne_fail hcause _
    | policyBackup backup =>
        rw [decryptedToBytes, PolicyBackup.toPayload]
        split
        · exact written_ne_fail hcause _
        · exact written_ne_fail hcause _
  rw [decryptedToDocument]
  generalize ([] : Bytes) = document
  induction decrypted generalizing document with
  | nil => exact (Exec.fail_ne_ok cause document).symm
  | cons value decrypted ih =>
      rw [List.foldlM_cons]
      refine Exec.bind_ne_fail (Exec.bind_ne_fail (hbytes value) fun bytes => ?_) ih
      exact (Exec.fail_ne_ok cause _).symm

end Printing

/-! ## What is granted, and what can be returned -/

/-- The key is granted by the device at the path it is asked for. -/
def Granted (grants : DeviceKind → DerivationPath → PublicKey → Prop) (threads : Threads) :
    Action → Prop
  | .answered (.xpub key) => match threads.fetch with
      | .fetching device path _ _ => grants device path key
      | _ => True
  | _ => True

section Verdicts

variable [Target] [Miniscript] [SerdeJson] [Serde DescriptorBackup] [Serde PolicySet]
  [Serde PolicyBackup] [V0] (crypto : Crypto) (backup : EncryptedBackup) (collector : Collector)
  (grants : DeviceKind → DerivationPath → PublicKey → Prop) (file : Option DescriptorPublicKey)

omit [Target] [Miniscript] [SerdeJson] [Serde DescriptorBackup] [Serde PolicySet]
  [Serde PolicyBackup] [V0] in
/-- Where the keys that are tried come from: the key file, or a device, at a path it was
planned to be asked for. -/
inductive Source : PublicKey → Prop
  | file (key : DescriptorPublicKey) (root : PublicKey) (hfile : file = some key)
      (hroot : dpkToRootPk key = .ok root) : Source root
  | device (device : DeviceKind) (path : DerivationPath) (expect : Expect) (key : PublicKey)
      (hplan : (path, expect) ∈ collector.paths device) (hgrants : grants device path key) :
      Source key

/-- The failure is one of a device that has to yield a key: at a planned path where it must,
or at the path it is unlocked with. -/
inductive Unfetched : FetchFailed → Prop
  | planned (device : DeviceKind) (path : DerivationPath) (error : String)
      (hplan : (path, .mustFetch) ∈ collector.paths device) :
      Unfetched ⟨device, path, .mustFetch, error⟩
  | unlocking (error : String) :
      Unfetched ⟨.bitBox02, collector.bitboxUnlockPath, .promptUser, error⟩

/-- The key has a source and is not one of the backup's. -/
def Shut (key : PublicKey) : Prop :=
  Source collector grants file key ∧
    ((backup.setKeys [key]).decrypt crypto = .fail .wrongKey ∨
      (backup.setKeys [key]).decrypt crypto = .fail .noKey)

/-- What the main thread may return. -/
inductive Verdict : Exec CliError Bytes → Prop
  /-- The key of the key file has no root. -/
  | badKey (key : DescriptorPublicKey) (fault : Fault CliError) (hfile : file = some key)
      (hroot : Exec.mapErr CliError.failedToDecrypt (dpkToRootPk key) = .error fault) :
      Verdict (.error fault)
  /-- A key opens the backup, which is printed or refused. -/
  | opened (key : PublicKey) (result : Exec CliError Bytes)
      (hsource : Source collector grants file key)
      (hdecrypt : decryptDocument crypto (backup.setKeys [key]) = result)
      (hopened : result ≠ .fail (.failedToDecrypt .wrongKey)) : Verdict result
  | unfetched (cause : FetchFailed) (hcause : Unfetched collector cause) :
      Verdict (.fail (.failedToFetchXpub cause))
  | wrongKey (key : PublicKey) (hshut : Shut crypto backup collector grants file key) :
      Verdict (.fail (.failedToDecrypt .wrongKey))
  | noKeys : Verdict (.fail .noKeys)

/-- What is printed, or the error for a key that opens the backup. -/
def Opened (message : Exec CliError Bytes) : Prop :=
  ∃ key, Source collector grants file key ∧
    decryptDocument crypto (backup.setKeys [key]) = message ∧
      message ≠ .fail (.failedToDecrypt .wrongKey)

/-- The decrypt thread holds keys and outcomes that have a source, and says that it saw a key
when it tried one in vain. -/
def DecryptThread.Sound : DecryptThread → Prop
  | .waiting sawKey | .ended sawKey =>
      sawKey = true → ∃ key, Shut crypto backup collector grants file key
  | .checking sawKey key => Source collector grants file key ∧
      (sawKey = true → ∃ key, Shut crypto backup collector grants file key)
  | .trying key => Source collector grants file key
  | .storing message | .sending message => Opened crypto backup collector grants file message
  | .refusing cause =>
      (cause = .failedToDecrypt .wrongKey ∧ ∃ key, Shut crypto backup collector grants file key) ∨
        cause = .noKeys
  | .returned => True

omit [Target] [Miniscript] [SerdeJson] [Serde DescriptorBackup] [Serde PolicySet]
  [Serde PolicyBackup] [V0] in
/-- The fetch thread is at a path of the plan, and holds a key or a failure from one. -/
def FetchThread.Sound : FetchThread → Prop
  | .looping device rest | .storingStop device rest => ∀ item ∈ rest, item ∈ collector.paths device
  | .fetching device path expect rest =>
      ∀ item ∈ (path, expect) :: rest, item ∈ collector.paths device
  | .sendingKey key device rest =>
      Source collector grants file key ∧ ∀ item ∈ rest, item ∈ collector.paths device
  | .failing cause | .reporting cause => Unfetched collector cause
  | .unspawned | .starting | .listing | .unlocking | .returned => True

/-- The main thread sends a key that has a source, and holds or returns a verdict. -/
def MainThread.Sound : MainThread → Prop
  | .sendingKey key => Source collector grants file key
  | .stopping message => Verdict crypto backup collector grants file (received message)
  | .returned result => Verdict crypto backup collector grants file result
  | .storingStop | .spawning | .droppingKeySender | .droppingDocumentSender | .receiving => True

/-- Everything on its way has a source. -/
structure Sound (threads : Threads) : Prop where
  keys : ∀ key ∈ threads.keys, Source collector grants file key
  documents : ∀ message ∈ threads.documents,
    Verdict crypto backup collector grants file (received (some message))
  main : threads.main.Sound crypto backup collector grants file
  decrypt : threads.decrypt.Sound crypto backup collector grants file
  fetch : threads.fetch.Sound collector grants file

end Verdicts

/-! ## Every step keeps the sources -/

section Steps

variable [Target] [Miniscript] [SerdeJson] [Serde DescriptorBackup] [Serde PolicySet]
  [Serde PolicyBackup] [V0] {crypto : Crypto} {backup : EncryptedBackup} {collector : Collector}
  {grants : DeviceKind → DerivationPath → PublicKey → Prop} {file : Option DescriptorPublicKey}
  {threads later : Threads}

theorem sound_start : Sound crypto backup collector grants file (start file) := by
  refine ⟨fun _ hkey => absurd hkey List.not_mem_nil, fun _ hmem => absurd hmem List.not_mem_nil,
    ?_, (fun hsaw => by cases hsaw), trivial⟩
  cases file with
  | none => exact trivial
  | some key =>
      dsimp only [start]
      rcases hroot : Exec.mapErr CliError.failedToDecrypt (dpkToRootPk key) with fault | root
      · exact .badKey key fault rfl hroot
      · exact .file key root rfl (Exec.mapErr_eq_ok_iff.mp hroot)

theorem Sound.mainStep (hsound : Sound crypto backup collector grants file threads)
    (hstep : mainStep threads = some later) : Sound crypto backup collector grants file later := by
  obtain ⟨hkeys, hdocuments, hmain, hdecrypt, hfetch⟩ := hsound
  revert hstep
  fun_cases Cli.mainStep threads with
  | case1 key hat hopen =>
      rintro ⟨⟩
      rw [hat] at hmain
      refine ⟨fun other hother => ?_, hdocuments, trivial, hdecrypt, hfetch⟩
      rcases List.mem_append.mp hother with hold | hnew
      · exact hkeys other hold
      · obtain rfl := List.mem_singleton.mp hnew
        exact hmain
  | case2 | case3 | case5 | case6 =>
      rintro ⟨⟩
      exact ⟨hkeys, hdocuments, trivial, hdecrypt, hfetch⟩
  | case4 hat =>
      rintro ⟨⟩
      exact ⟨hkeys, hdocuments, trivial, hdecrypt, trivial⟩
  | case7 hat message documents hqueue =>
      rintro ⟨⟩
      rw [hqueue] at hdocuments
      exact ⟨hkeys, fun other hother => hdocuments other (List.mem_cons_of_mem _ hother),
        hdocuments message List.mem_cons_self, hdecrypt, hfetch⟩
  | case9 =>
      rintro ⟨⟩
      exact ⟨hkeys, hdocuments, .noKeys, hdecrypt, hfetch⟩
  | case10 message hat =>
      rintro ⟨⟩
      rw [hat] at hmain
      exact ⟨hkeys, hdocuments, hmain, hdecrypt, hfetch⟩
  | case8 | case11 => exact fun hstep => by cases hstep

/-- What is made of a key that has a source has one too. -/
theorem sound_tryKey {key : PublicKey} (hsource : Source collector grants file key) :
    (tryKey crypto backup key).Sound crypto backup collector grants file := by
  fun_cases tryKey crypto backup key with
  | case1 decrypted hdecrypt =>
      refine ⟨key, hsource, ?_, decryptedToDocument_ne_fail (.inr rfl)⟩
      rw [decryptDocument, hdecrypt]
      rfl
  | case2 hdecrypt => exact fun _ => ⟨key, hsource, .inl hdecrypt⟩
  | case3 hdecrypt => exact fun _ => ⟨key, hsource, .inr hdecrypt⟩
  | case4 cause hwrong hnone hdecrypt =>
      refine ⟨key, hsource, ?_, fun hsame => ?_⟩
      · rw [decryptDocument, hdecrypt]
        rfl
      · rw [Exec.fail_inj, CliError.failedToDecrypt.injEq] at hsame
        exact hwrong hsame
  | case5 | case6 => exact trivial

theorem Sound.decryptStep (hsound : Sound crypto backup collector grants file threads)
    (hstep : decryptStep crypto backup threads = some later) :
    Sound crypto backup collector grants file later := by
  obtain ⟨hkeys, hdocuments, hmain, hdecrypt, hfetch⟩ := hsound
  have hverdict : ∀ message, Opened crypto backup collector grants file message →
      Verdict crypto backup collector grants file message :=
    fun message ⟨key, hsource, hprinted, hopened⟩ => .opened key message hsource hprinted hopened
  revert hstep
  fun_cases Cli.decryptStep crypto backup threads with
  | case1 sawKey hat key keys hqueue =>
      rintro ⟨⟩
      rw [hqueue] at hkeys
      rw [hat] at hdecrypt
      exact ⟨fun other hother => hkeys other (List.mem_cons_of_mem _ hother), hdocuments, hmain,
        ⟨hkeys key List.mem_cons_self, hdecrypt⟩, hfetch⟩
  | case3 sawKey hat _ _ =>
      rintro ⟨⟩
      rw [hat] at hdecrypt
      exact ⟨hkeys, hdocuments, hmain, hdecrypt, hfetch⟩
  | case4 sawKey key hat _ =>
      rintro ⟨⟩
      rw [hat] at hdecrypt
      exact ⟨hkeys, hdocuments, hmain, hdecrypt.2, hfetch⟩
  | case5 sawKey key hat hrunning =>
      rintro ⟨⟩
      rw [hat] at hdecrypt
      exact ⟨hkeys, hdocuments, hmain, hdecrypt.1, hfetch⟩
  | case6 key hat =>
      rintro ⟨⟩
      rw [hat] at hdecrypt
      exact ⟨hkeys, hdocuments, hmain, sound_tryKey hdecrypt, hfetch⟩
  | case7 message hat =>
      rintro ⟨⟩
      rw [hat] at hdecrypt
      exact ⟨hkeys, hdocuments, hmain, hdecrypt, hfetch⟩
  | case8 document hat =>
      rintro ⟨⟩
      rw [hat] at hdecrypt
      refine ⟨hkeys, fun other hother => ?_, hmain, trivial, hfetch⟩
      rcases List.mem_append.mp hother with hold | hnew
      · exact hdocuments other hold
      · obtain rfl := List.mem_singleton.mp hnew
        exact hverdict _ hdecrypt
  | case9 cause hat =>
      rintro ⟨⟩
      rw [hat] at hdecrypt
      refine ⟨hkeys, fun other hother => ?_, hmain, trivial, hfetch⟩
      rcases List.mem_append.mp hother with hold | hnew
      · exact hdocuments other hold
      · obtain rfl := List.mem_singleton.mp hnew
        exact hverdict _ hdecrypt
  | case10 | case11 | case12 =>
      rintro ⟨⟩
      exact ⟨hkeys, hdocuments, hmain, trivial, hfetch⟩
  | case13 sawKey hat hrunning =>
      rintro ⟨⟩
      rw [hat] at hdecrypt
      refine ⟨hkeys, hdocuments, hmain, ?_, hfetch⟩
      cases sawKey with
      | true => exact .inl ⟨rfl, hdecrypt rfl⟩
      | false => exact .inr rfl
  | case14 cause hat =>
      rintro ⟨⟩
      rw [hat] at hdecrypt
      refine ⟨hkeys, fun other hother => ?_, hmain, trivial, hfetch⟩
      rcases List.mem_append.mp hother with hold | hnew
      · exact hdocuments other hold
      · obtain rfl := List.mem_singleton.mp hnew
        rcases hdecrypt with ⟨rfl, key, hshut⟩ | rfl
        · exact .wrongKey key hshut
        · exact .noKeys
  | case2 | case15 => exact fun hstep => by cases hstep

omit [Target] [Miniscript] [SerdeJson] [Serde DescriptorBackup] [Serde PolicySet]
  [Serde PolicyBackup] [V0] in
theorem sound_notFetched {device : DeviceKind} {path : DerivationPath} {expect : Expect}
    {rest : List (DerivationPath × Expect)}
    (hplan : ∀ item ∈ (path, expect) :: rest, item ∈ collector.paths device) (error : String) :
    (notFetched device path expect rest error).Sound collector grants file := by
  obtain ⟨hpath, hrest⟩ := List.forall_mem_cons.mp hplan
  cases expect with
  | mustFetch => exact .planned device path error hpath
  | promptUser | canFail => exact hrest

omit [Target] [Miniscript] [SerdeJson] [Serde DescriptorBackup] [Serde PolicySet]
  [Serde PolicyBackup] [V0] in
theorem sound_unlockBitbox (device : DeviceKind) :
    (unlockBitbox collector device).Sound collector grants file := by
  cases device with
  | bitBox02 => exact trivial
  | coldcard | ledger | ledgerSimulator | specter | specterSimulator | jade =>
      exact fun _ hitem => hitem

theorem Sound.fetchStep {action : Action}
    (hsound : Sound crypto backup collector grants file threads)
    (hgranted : Granted grants threads action)
    (hstep : fetchStep collector threads action = some later) :
    Sound crypto backup collector grants file later := by
  obtain ⟨hkeys, hdocuments, hmain, hdecrypt, hfetch⟩ := hsound
  revert hstep
  fun_cases Cli.fetchStep collector threads action with
  | case1 | case2 | case3 | case8 | case9 =>
      rintro ⟨⟩
      exact ⟨hkeys, hdocuments, hmain, hdecrypt, trivial⟩
  | case4 device hat =>
      rintro ⟨⟩
      exact ⟨hkeys, hdocuments, hmain, hdecrypt, sound_unlockBitbox device⟩
  | case5 key hat =>
      rintro ⟨⟩
      exact ⟨hkeys, hdocuments, hmain, hdecrypt, fun _ hitem => hitem⟩
  | case6 error hat =>
      rintro ⟨⟩
      exact ⟨hkeys, hdocuments, hmain, hdecrypt, .unlocking error⟩
  | case7 hat =>
      rintro ⟨⟩
      exact ⟨hkeys, hdocuments, hmain, hdecrypt, .unlocking "Timed out"⟩
  | case10 device path expect rest hat hrunning =>
      rintro ⟨⟩
      rw [hat] at hfetch
      exact ⟨hkeys, hdocuments, hmain, hdecrypt, hfetch⟩
  | case11 device path expect rest key hat =>
      rintro ⟨⟩
      rw [hat] at hfetch
      rw [Granted, hat] at hgranted
      obtain ⟨hpath, hrest⟩ := List.forall_mem_cons.mp hfetch
      exact ⟨hkeys, hdocuments, hmain, hdecrypt, .device device path expect key hpath hgranted,
        hrest⟩
  | case12 device path expect rest error hat =>
      rintro ⟨⟩
      rw [hat] at hfetch
      exact ⟨hkeys, hdocuments, hmain, hdecrypt, sound_notFetched hfetch error⟩
  | case13 device path expect rest hat =>
      rintro ⟨⟩
      rw [hat] at hfetch
      exact ⟨hkeys, hdocuments, hmain, hdecrypt, sound_notFetched hfetch "Timed out"⟩
  | case14 key device rest hat hopen =>
      rintro ⟨⟩
      rw [hat] at hfetch
      refine ⟨fun other hother => ?_, hdocuments, hmain, hdecrypt, hfetch.2⟩
      rcases List.mem_append.mp hother with hold | hnew
      · exact hkeys other hold
      · obtain rfl := List.mem_singleton.mp hnew
        exact hfetch.1
  | case15 key device rest hat hclosed =>
      rintro ⟨⟩
      rw [hat] at hfetch
      exact ⟨hkeys, hdocuments, hmain, hdecrypt, hfetch.2⟩
  | case16 device rest hat =>
      rintro ⟨⟩
      rw [hat] at hfetch
      exact ⟨hkeys, hdocuments, hmain, hdecrypt, hfetch⟩
  | case17 cause hat =>
      rintro ⟨⟩
      rw [hat] at hfetch
      exact ⟨hkeys, hdocuments, hmain, hdecrypt, hfetch⟩
  | case18 cause hat =>
      rintro ⟨⟩
      rw [hat] at hfetch
      refine ⟨hkeys, fun other hother => ?_, hmain, hdecrypt, trivial⟩
      rcases List.mem_append.mp hother with hold | hnew
      · exact hdocuments other hold
      · obtain rfl := List.mem_singleton.mp hnew
        exact .unfetched cause hfetch
  | case19 => exact fun hstep => by cases hstep

/-- Everything that is granted by a device or read from the key file has a source, and so
has everything that is made of it. -/
theorem Sound.step {action : Action} (hsound : Sound crypto backup collector grants file threads)
    (hgranted : Granted grants threads action)
    (hstep : step crypto backup collector threads action = some later) :
    Sound crypto backup collector grants file later := by
  cases action with
  | main => exact hsound.mainStep hstep
  | decrypt => exact hsound.decryptStep hstep
  | fetch | listed _ | answered _ => exact hsound.fetchStep hgranted hstep

/-- In every interleaving, what the main thread returns has its cause in the run: a document
is what a key of the key file, or one a device granted at a planned path, decrypts the
backup to; a failure to fetch is that of a path a device has to yield; and any other error is
that of a key which opens the backup, or for a missing or a wrong key. -/
theorem verdict_of_returned
    (hreachable : Reachable (Cli.step crypto backup collector) (Granted grants) (start file)
      threads)
    {result : Exec CliError Bytes} (hreturned : threads.main = .returned result) :
    Verdict crypto backup collector grants file result := by
  have hsound : Sound crypto backup collector grants file threads :=
    hreachable.invariant sound_start fun _ _ _ hsound hgranted hstep => hsound.step hgranted hstep
  have hmain := hsound.main
  rw [hreturned] at hmain
  exact hmain

end Steps

/-! ## No schedule is stuck -/

section Progress

variable [Target] [Miniscript] [SerdeJson] [Serde DescriptorBackup] [Serde PolicySet]
  [Serde PolicyBackup] [V0] {crypto : Crypto} {backup : EncryptedBackup} {collector : Collector}
  {threads : Threads}

/-- As long as the fetch thread runs it can go on, if only with a device that does not
answer in time. -/
theorem exists_step_of_holdsSenders (hruns : threads.fetch.holdsSenders = true) :
    ∃ action, step crypto backup collector threads action ≠ none := by
  rcases threads with ⟨stop, keys, documents, main, decrypt, fetch⟩
  cases fetch with
  | unspawned | returned => cases hruns
  | starting => cases stop <;> exact ⟨.fetch, Option.some_ne_none _⟩
  | listing => exact ⟨.listed none, Option.some_ne_none _⟩
  | unlocking => exact ⟨.answered .timedOut, Option.some_ne_none _⟩
  | looping device rest =>
      refine ⟨.fetch, ?_⟩
      rcases rest with _ | ⟨⟨path, expect⟩, rest⟩
      · exact Option.some_ne_none _
      · cases stop <;> exact Option.some_ne_none _
  | fetching device path expect rest => exact ⟨.answered .timedOut, Option.some_ne_none _⟩
  | sendingKey key device rest =>
      refine ⟨.fetch, ?_⟩
      dsimp only [step, fetchStep]
      split
      · exact Option.some_ne_none _
      · exact Option.some_ne_none _
  | storingStop device rest => exact ⟨.fetch, Option.some_ne_none _⟩
  | failing cause => exact ⟨.fetch, Option.some_ne_none _⟩
  | reporting cause => exact ⟨.fetch, Option.some_ne_none _⟩

/-- Without a fetch thread, the decrypt thread waits only for a key of the main thread. -/
theorem exists_step_of_decrypt (hfetch : threads.fetch.holdsSenders = false)
    (hmain : threads.main.holdsKeySender = false) (hruns : threads.decrypt ≠ .returned) :
    step crypto backup collector threads .decrypt ≠ none := by
  rcases threads with ⟨stop, keys, documents, main, decrypt, fetch⟩
  dsimp only at hfetch hmain hruns
  dsimp only [step]
  cases decrypt with
  | waiting sawKey =>
      cases keys with
      | nil => simp [decryptStep, hfetch, hmain]
      | cons key keys => exact Option.some_ne_none _
  | checking sawKey key => cases stop <;> exact Option.some_ne_none _
  | trying key => exact Option.some_ne_none _
  | storing message => exact Option.some_ne_none _
  | sending message =>
      rcases message with (cause | cause | _) | document
      · exact Option.some_ne_none _
      · exact Option.some_ne_none _
      · exact Option.some_ne_none _
      · exact Option.some_ne_none _
  | ended sawKey => cases stop <;> exact Option.some_ne_none _
  | refusing cause => exact Option.some_ne_none _
  | returned => exact absurd rfl hruns

/-- The main thread waits only for a document, and only as long as another thread may send
one. -/
theorem exists_step_of_main (hfetch : threads.fetch.holdsSenders = false)
    (hdecrypt : threads.decrypt = .returned)
    (hruns : ∀ result, threads.main ≠ .returned result) :
    step crypto backup collector threads .main ≠ none := by
  rcases threads with ⟨stop, keys, documents, main, decrypt, fetch⟩
  dsimp only at hfetch hdecrypt hruns
  subst hdecrypt
  dsimp only [step]
  cases main with
  | sendingKey key => exact Option.some_ne_none _
  | storingStop => exact Option.some_ne_none _
  | spawning => exact Option.some_ne_none _
  | droppingKeySender => exact Option.some_ne_none _
  | droppingDocumentSender => exact Option.some_ne_none _
  | receiving =>
      cases documents with
      | nil => simp [mainStep, hfetch, DecryptThread.holdsDocumentSender]
      | cons message documents => exact Option.some_ne_none _
  | stopping message => exact Option.some_ne_none _
  | returned result => exact absurd rfl (hruns result)

omit [Target] [Miniscript] [SerdeJson] [Serde DescriptorBackup] [Serde PolicySet]
  [Serde PolicyBackup] [V0] in
/-- The main thread does not wait for anything while it holds the sender of keys. -/
theorem holdsKeySender_of_stuck (hstuck : mainStep threads = none) :
    threads.main.holdsKeySender = false := by
  revert hstuck
  fun_cases mainStep threads with
  | case8 hat | case11 result hat => exact fun _ => by rw [hat]; rfl
  | _ => exact fun hstuck => by cases hstuck

/-- There is no deadlock and no endless run. From any state of the threads, whichever of them
takes the next step, a run is no longer than the work that is left; and where no thread can
go on, the main thread has returned and no other thread runs. -/
theorem main_returns (threads : Threads) :
    (∀ (actions : List Action) (later : Threads),
      actions.foldlM (step crypto backup collector) threads = some later →
        actions.length ≤ threads.work collector) ∧
    ((∀ action, step crypto backup collector threads action = none) →
      (∃ result, threads.main = .returned result) ∧ threads.decrypt = .returned ∧
        threads.fetch.holdsSenders = false) := by
  refine ⟨fun actions later hrun =>
      length_le_of_run (fun _ _ _ hstep => work_lt_of_step hstep) hrun,
    fun hstuck => ?_⟩
  have hfetch : threads.fetch.holdsSenders = false := by
    by_contra hruns
    have hgoes : ∃ action, step crypto backup collector threads action ≠ none :=
      exists_step_of_holdsSenders (Bool.not_eq_false _ ▸ hruns)
    obtain ⟨action, haction⟩ := hgoes
    exact haction (hstuck action)
  have hmain : threads.main.holdsKeySender = false := holdsKeySender_of_stuck (hstuck .main)
  have hdecrypt : threads.decrypt = .returned := by
    by_contra hruns
    exact exists_step_of_decrypt hfetch hmain hruns (hstuck .decrypt)
  refine ⟨?_, hdecrypt, hfetch⟩
  by_contra hruns
  exact exists_step_of_main hfetch hdecrypt (not_exists.mp hruns) (hstuck .main)

end Progress

/-! ## A Ledger that grants its path -/

namespace Sample

open Bip138.Sample

/-- The Ledger of the holder. -/
def holderLedger : DeviceKind → DerivationPath → PublicKey → Prop
  | .ledger, path, key => path = legacyPath ∧ key = holder
  | _, _, _ => False

/-- The key of the Ledger is in the channel, and nothing was decrypted yet. -/
def keyGranted : Threads :=
  ⟨false, [holder], [], .droppingKeySender, .waiting false, .looping .ledger []⟩

/-- Without a key file the Ledger is asked. -/
theorem reachable_keyGranted (backup : EncryptedBackup) :
    Reachable (step sampleCrypto backup onePath) (Granted holderLedger) (start none)
      keyGranted := by
  have hasked :
      Reachable (step sampleCrypto backup onePath) (Granted holderLedger) (start none) _ :=
    (((Reachable.start.next .main trivial rfl).next .fetch trivial rfl).next
      (.listed (some .ledger)) trivial rfl).next .fetch trivial rfl
  exact (hasked.next (.answered (.xpub holder)) ⟨rfl, rfl⟩ rfl).next .fetch trivial rfl

/-- The key decrypts, and the document is received. -/
theorem exists_reachable_of_keyGranted {backup : EncryptedBackup} {document : Bytes}
    (hdocument : decryptDocument sampleCrypto (backup.setKeys [holder]) = .ok document) :
    ∃ later,
      Reachable (step sampleCrypto backup onePath) (Granted holderLedger) keyGranted later ∧
      later.main = .returned (.ok document) := by
  have htried : Reachable (step sampleCrypto backup onePath) (Granted holderLedger) keyGranted
      { keyGranted with keys := [], decrypt := tryKey sampleCrypto backup holder } :=
    ((Reachable.start.next .decrypt trivial rfl).next .decrypt trivial rfl).next .decrypt trivial
      rfl
  rw [tryKey_eq hdocument] at htried
  have htold := (htried.next .decrypt trivial rfl).next .decrypt trivial rfl
  have hreceiving := (htold.next .main trivial rfl).next .main trivial rfl
  exact ⟨_, (hreceiving.next .main trivial rfl).next .main trivial rfl, rfl⟩

end Sample

open Cli.Sample Bip138.Sample in
/-- The document comes from the key that the Ledger granted. -/
theorem verdict_of_returned_ledger :
    ∃ backup threads result,
      Reachable (step sampleCrypto backup onePath) (Granted holderLedger) (start none) threads ∧
      threads.main = .returned result ∧
      Verdict sampleCrypto backup onePath holderLedger none result := by
  obtain ⟨backup, hdocument⟩ := exists_decryptDocument_letter
  obtain ⟨later, hlater, hreturned⟩ := exists_reachable_of_keyGranted hdocument
  have hrun := (reachable_keyGranted backup).trans hlater
  exact ⟨backup, later, _, hrun, hreturned, verdict_of_returned hrun hreturned⟩

end Bip138.Cli
