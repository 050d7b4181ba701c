/-
# The key of a device

`encrypt --device` adds a key of the first connected device to those of the descriptor: the one
at a path that is given, or the first one of the plan that the device grants. The collection is
stopped by the key it yields, so the command ends with the first answer that decides
(`fetchEncryptionDeviceKey_eq_iff`), and it finds no key only where there is no device
(`fetchEncryptionDeviceKey_eq_noKeys_iff`).

What is written can be decrypted with that key, and whoever decrypts it with a device asks for
the path it came from, with one exception that is stated exactly (`reopens_of_addDeviceKey`).
-/

import Bip138.Front.Collection
import Bip138.Cli.KeysFile

namespace Bip138.Cli

open Bip138.Rust Bip138.Ll

variable {δ ρ : Type}

section Code

def deviceNetwork (derivPaths : List DerivationPath) : Network :=
  if derivPaths.any fun path => path[1]?.map (fun index => index &&& ~~~hardenedBit) = some 1 then
    .testnet
  else .bitcoin

/-- The flag that stops the collection, and the channel of the keys. -/
structure KeyChannel where
  stop : Bool
  keys : List (PublicKey × DerivationPath)

/-- The callbacks of `fetch_encryption_device_key`. The receiver outlives the collection, so a
key is always sent. -/
def keyCaller : Caller KeyChannel where
  log _ channel := channel
  onXpub path xpub channel := ⟨true, channel.keys ++ [(xpub.publicKey, path)]⟩
  shouldStop channel := (channel.stop, channel)

/-- A caller that only prints. -/
def printingCaller : Caller Unit where
  log _ host := host
  onXpub _ _ host := host
  shouldStop host := (false, host)

/-- The collector of `encrypt --device`. -/
def encryptCollector (derivPaths : List DerivationPath) : XpubCollector :=
  { XpubCollector.new derivPaths (deviceNetwork derivPaths) with ordering := [48, 84, 86] }

@[simp]
theorem network_encryptCollector (derivPaths : List DerivationPath) :
    (encryptCollector derivPaths).network = deviceNetwork derivPaths := rfl

@[simp]
theorem derivPaths_encryptCollector (derivPaths : List DerivationPath) :
    (encryptCollector derivPaths).derivPaths = derivPaths := rfl

/-- The key of a device and its path, for the devices that are listed and their state. -/
def fetchEncryptionDeviceKey (list : Network → Option (List (Device δ))) (state : δ)
    (path : Option DerivationPath) (derivPaths : List DerivationPath) :
    Exec CliError (PublicKey × DerivationPath) :=
  match path with
  | some path => do
      let xpub ← .mapErr .failedToFetchXpub
        (fetchFirstXpubAtPath path (deviceNetwork [path]) list printingCaller () state).1
      .okOr (xpub.map fun xpub => (xpub.publicKey, path)) .noKeys
  | none =>
      let (xpubs, channel, _) :=
        (encryptCollector derivPaths).collectUntil list keyCaller ⟨false, []⟩ state
      do
        let _ ← .mapErr .failedToFetchXpub xpubs
        .okOr channel.keys.head? .noKeys

end Code

/-! ## The first answer that decides -/

section Fetch

variable {kind : DeviceKind} {prompt : Bool} {asked : List Asked}

/-- The key of a path that was granted. -/
def keyOf (item : Asked) : Option (PublicKey × DerivationPath) :=
  item.granted.map fun xpub => (xpub.publicKey, item.path)

theorem hears_keyCaller (channel : KeyChannel) (item : Asked) :
    keyCaller.hears prompt kind channel item =
      ⟨channel.stop || (keyOf item).isSome, channel.keys ++ (keyOf item).toList⟩ := by
  obtain ⟨path, expect, answer⟩ := item
  cases answer <;> simp [Caller.hears, keyCaller, keyOf, Asked.granted]

theorem foldl_hears_keyCaller (channel : KeyChannel) :
    asked.foldl (keyCaller.hears prompt kind) channel =
      ⟨channel.stop || asked.any fun item => (keyOf item).isSome,
        channel.keys ++ asked.filterMap keyOf⟩ := by
  induction asked generalizing channel with
  | nil => simp
  | cons item asked ih =>
      rw [List.foldl_cons, hears_keyCaller, ih]
      cases hkey : keyOf item <;> simp [hkey]

/-- Before every path that is asked for, no key was granted. -/
theorem keyOf_eq_none_of_letsAsk {before after : List Asked} {item : Asked}
    (hlets : LetsAsk keyCaller kind prompt ⟨false, []⟩ (before ++ item :: after)) :
    ∀ earlier ∈ before, keyOf earlier = none := by
  have hstop := hlets before item after rfl
  rw [foldl_hears_keyCaller] at hstop
  intro earlier hearlier
  have hany : (before.any fun item => (keyOf item).isSome) = false := by
    simpa [keyCaller] using hstop
  have hnone := List.any_eq_false.mp hany earlier hearlier
  rwa [Bool.not_eq_true, Option.isSome_eq_false_iff, Option.isNone_iff_eq_none] at hnone

/-- A key that is granted is granted at the last path that is asked for. -/
theorem exists_eq_append_of_granted (hlets : LetsAsk keyCaller kind prompt ⟨false, []⟩ asked)
    (hgranted : ∃ item ∈ asked, (keyOf item).isSome) :
    ∃ before item found, asked = before ++ [item] ∧ keyOf item = some found ∧
      ∀ earlier ∈ before, keyOf earlier = none := by
  obtain ⟨item, hitem, hkey⟩ := hgranted
  obtain ⟨found, hfound⟩ := Option.isSome_iff_exists.mp hkey
  obtain ⟨before, after, rfl⟩ := List.append_of_mem hitem
  rcases after with _ | ⟨next, after⟩
  · exact ⟨before, item, found, rfl, hfound, keyOf_eq_none_of_letsAsk hlets⟩
  · rw [List.append_cons] at hlets
    have hnone := keyOf_eq_none_of_letsAsk hlets item
      (List.mem_append_right before (List.mem_singleton_self item))
    rw [hfound] at hnone
    cases hnone

theorem unlockBitbox_keyCaller (device : Device δ) (network : Network) (channel : KeyChannel)
    (state : δ) : (Bip138.unlockBitbox device network keyCaller channel state).2.1 = channel := by
  rw [Bip138.unlockBitbox]
  split
  · rfl
  · split
    · rfl
    · dsimp only
      split <;> rfl

/-- What the answers of a device come to: before the path that decides none was granted, and
none failed that had to be. -/
inductive Decides (kind : DeviceKind) (answers : List Asked) :
    Exec CliError (PublicKey × DerivationPath) → Prop
  | granted (before : List Asked) (item : Asked) (rest : List Asked)
      (found : PublicKey × DerivationPath) (hanswers : answers = before ++ item :: rest)
      (hbefore : ∀ earlier ∈ before, keyOf earlier = none ∧ earlier.fatal kind = none)
      (hfound : keyOf item = some found) : Decides kind answers (.ok found)
  | failed (before : List Asked) (item : Asked) (rest : List Asked) (cause : FetchFailed)
      (hanswers : answers = before ++ item :: rest)
      (hbefore : ∀ earlier ∈ before, keyOf earlier = none ∧ earlier.fatal kind = none)
      (hfatal : item.fatal kind = some cause) :
      Decides kind answers (.fail (.failedToFetchXpub cause))

/-- What an answer decides on its own. -/
def Asked.decided (kind : DeviceKind) (item : Asked) :
    Option (Exec CliError (PublicKey × DerivationPath)) :=
  match keyOf item with
  | some found => some (.ok found)
  | none => (item.fatal kind).map fun cause => .fail (.failedToFetchXpub cause)

theorem findSome?_decided {before rest : List Asked} {item : Asked}
    (hbefore : ∀ earlier ∈ before, keyOf earlier = none ∧ earlier.fatal kind = none) :
    (before ++ item :: rest).findSome? (Asked.decided kind) =
      ((item :: rest).findSome? (Asked.decided kind)) := by
  have hnone : before.findSome? (Asked.decided kind) = none := by
    rw [List.findSome?_eq_none_iff]
    intro earlier hearlier
    obtain ⟨hkey, hsoft⟩ := hbefore earlier hearlier
    rw [Asked.decided, hkey, hsoft]
    rfl
  rw [List.findSome?_append, hnone, Option.none_or]

/-- The answers decide by the first of them that does. -/
theorem Decides.findSome?_eq {answers : List Asked}
    {result : Exec CliError (PublicKey × DerivationPath)}
    (hdecides : Decides kind answers result) :
    answers.findSome? (Asked.decided kind) = some result := by
  cases hdecides with
  | granted before item rest found hanswers hbefore hfound =>
      rw [hanswers, findSome?_decided hbefore, List.findSome?_cons, Asked.decided, hfound]
  | failed before item rest cause hanswers hbefore hfatal =>
      have hkey : keyOf item = none := by
        obtain ⟨path, expect, answer⟩ := item
        cases answer with
        | xpub xpub => cases expect <;> cases hfatal
        | failed error => rfl
        | timedOut => rfl
      rw [hanswers, findSome?_decided hbefore, List.findSome?_cons, Asked.decided, hkey, hfatal]
      rfl

/-- When some path was granted, it was the last one that was asked for. -/
theorem decides_of_granted {rest : List Asked}
    (hlets : LetsAsk keyCaller kind prompt ⟨false, []⟩ asked)
    (hsoft : ∀ item ∈ asked, item.fatal kind = none)
    (hgranted : ∃ item ∈ asked, (keyOf item).isSome) :
    Decides kind (asked ++ rest) (.okOr (asked.filterMap keyOf).head? .noKeys) := by
  obtain ⟨before, item, found, rfl, hfound, hnone⟩ := exists_eq_append_of_granted hlets hgranted
  rw [List.filterMap_append, List.filterMap_eq_nil_iff.mpr hnone, List.nil_append,
    List.filterMap_cons_some hfound]
  refine .granted before item rest found (List.append_cons _ _ _).symm (fun earlier hearlier => ?_)
    hfound
  exact ⟨hnone earlier hearlier, hsoft earlier (List.mem_append_left _ hearlier)⟩

/-- With a device at hand that lets itself be unlocked, the first answer that decides is the
result. The paths of the plan are asked for until one is granted, whose key is taken, or one
fails that every device lets be fetched; one of the two happens, and no path behind it is
asked for. -/
theorem decides_of_unlocked {list : Network → Option (List (Device δ))}
    {derivPaths : List DerivationPath} {device : Device δ} {others : List (Device δ)}
    {channel : KeyChannel} {state state' : δ}
    (hlist : list (deviceNetwork derivPaths) = some (device :: others))
    (hunlock : Bip138.unlockBitbox device (deviceNetwork derivPaths) keyCaller ⟨false, []⟩ state =
      (.ok (), channel, state')) :
    Decides device.deviceKind
      (device.transcript false ((encryptCollector derivPaths).paths device.deviceKind) state')
      (fetchEncryptionDeviceKey list state none derivPaths) := by
  obtain rfl : ⟨false, []⟩ = channel := by
    have hchannel := unlockBitbox_keyCaller device (deviceNetwork derivPaths) ⟨false, []⟩ state
    rw [hunlock] at hchannel
    exact hchannel.symm
  have hfirst : list (encryptCollector derivPaths).network = some (device :: others) := hlist
  obtain ⟨asked, rest, outcome, later, htranscript, hloop, hlets, hends⟩ :=
    collectPaths_accounts (encryptCollector derivPaths) device keyCaller
      ((encryptCollector derivPaths).paths device.deviceKind) .empty [] ⟨false, []⟩ state'
  have hrun := collectUntil_of_collectPaths hfirst hunlock hloop
  have hplan := device.map_transcript (encryptCollector derivPaths).prompt
    ((encryptCollector derivPaths).paths device.deviceKind) state'
  rw [htranscript] at hplan
  rw [foldl_hears_keyCaller] at hends
  rw [fetchEncryptionDeviceKey]
  dsimp only
  rw [hrun]
  change Decides _ (device.transcript (encryptCollector derivPaths).prompt _ state') _
  rw [htranscript]
  cases hends with
  | complete hrest hsoft =>
      refine decides_of_granted hlets hsoft ?_
      -- the plan has a path that every device lets be fetched
      obtain ⟨path, hpath⟩ :=
        (encryptCollector derivPaths).exists_mustFetch_mem_paths device.deviceKind
      rw [← hplan, hrest, List.append_nil] at hpath
      obtain ⟨item, hitem, hexpect⟩ := List.mem_map.mp hpath
      refine ⟨item, hitem, ?_⟩
      have hfatal := hsoft item hitem
      obtain ⟨_, _, answer⟩ := item
      cases hexpect
      cases answer with
      | xpub xpub => rfl
      | failed error => cases hfatal
      | timedOut => cases hfatal
  | stopped _ hstop hsoft =>
      refine decides_of_granted hlets hsoft ?_
      simpa [keyCaller] using hstop
  | failed earlier last cause hasked hsoft hfatal =>
      subst hasked
      refine .failed earlier last rest cause (List.append_cons _ _ _).symm (fun item hitem => ?_)
        hfatal
      exact ⟨keyOf_eq_none_of_letsAsk hlets item hitem, hsoft item hitem⟩

/-- The network the device is asked on. -/
def encryptNetwork (path : Option DerivationPath) (derivPaths : List DerivationPath) : Network :=
  deviceNetwork (path.elim derivPaths fun path => [path])

section Outcomes

variable {list : Network → Option (List (Device δ))} {path : Option DerivationPath}
  {derivPaths : List DerivationPath} {state : δ}

/-- What the command comes to that is given no path: without a device there is no key; the first
device fails to be unlocked, or decides. -/
inductive Fetches (list : Network → Option (List (Device δ))) (derivPaths : List DerivationPath)
    (state : δ) : Exec CliError (PublicKey × DerivationPath) → Prop
  | noDevice (hnone : (list (deviceNetwork derivPaths)).getD [] = []) :
      Fetches list derivPaths state (.fail .noKeys)
  | locked (device : Device δ) (others : List (Device δ)) (cause : FetchFailed)
      (hlist : list (deviceNetwork derivPaths) = some (device :: others))
      (hlocked : (Bip138.unlockBitbox device (deviceNetwork derivPaths) keyCaller ⟨false, []⟩
        state).1 = .fail cause) :
      Fetches list derivPaths state (.fail (.failedToFetchXpub cause))
  | decided (device : Device δ) (others : List (Device δ)) (channel : KeyChannel) (state' : δ)
      (result : Exec CliError (PublicKey × DerivationPath))
      (hlist : list (deviceNetwork derivPaths) = some (device :: others))
      (hunlock : Bip138.unlockBitbox device (deviceNetwork derivPaths) keyCaller ⟨false, []⟩
        state = (.ok (), channel, state'))
      (hdecides : Decides device.deviceKind
        (device.transcript false ((encryptCollector derivPaths).paths device.deviceKind) state')
        result) :
      Fetches list derivPaths state result

/-- Without a device there is no key. -/
theorem fetchEncryptionDeviceKey_of_noDevice
    (hnone : (list (deviceNetwork derivPaths)).getD [] = []) :
    fetchEncryptionDeviceKey list state none derivPaths = .fail .noKeys := by
  have hfirst : (list (encryptCollector derivPaths).network).getD [] = [] := hnone
  rw [fetchEncryptionDeviceKey, XpubCollector.collectUntil]
  rcases hlist : list (encryptCollector derivPaths).network with _ | _ | ⟨device, others⟩
  · rfl
  · rfl
  · rw [hlist] at hfirst
    cases hfirst

/-- The first device fails to be unlocked, and no other is tried. -/
theorem fetchEncryptionDeviceKey_of_locked {device : Device δ} {others : List (Device δ)}
    {cause : FetchFailed} (hlist : list (deviceNetwork derivPaths) = some (device :: others))
    (hlocked : (Bip138.unlockBitbox device (deviceNetwork derivPaths) keyCaller ⟨false, []⟩
      state).1 = .fail cause) :
    fetchEncryptionDeviceKey list state none derivPaths =
      .fail (.failedToFetchXpub cause) := by
  have hfirst : list (encryptCollector derivPaths).network = some (device :: others) := hlist
  have hunlock : (Bip138.unlockBitbox device (encryptCollector derivPaths).network keyCaller
      (keyCaller.log (.fetchingOn device.deviceKind) ⟨false, []⟩) state).1 = .fail cause := hlocked
  rw [fetchEncryptionDeviceKey, XpubCollector.collectUntil, hfirst]
  dsimp only
  rcases hresult : Bip138.unlockBitbox device (encryptCollector derivPaths).network keyCaller
    (keyCaller.log (.fetchingOn device.deviceKind) ⟨false, []⟩) state with
    ⟨outcome, channel, state'⟩
  rw [hresult] at hunlock
  dsimp only at hunlock
  rw [hunlock]
  rfl

theorem fetches_fetchEncryptionDeviceKey (list : Network → Option (List (Device δ)))
    (derivPaths : List DerivationPath) (state : δ) :
    Fetches list derivPaths state (fetchEncryptionDeviceKey list state none derivPaths) := by
  by_cases hnone : (list (deviceNetwork derivPaths)).getD [] = []
  · rw [fetchEncryptionDeviceKey_of_noDevice hnone]
    exact .noDevice hnone
  · obtain ⟨device, others, hlist⟩ :
        ∃ device others, list (deviceNetwork derivPaths) = some (device :: others) := by
      rcases hlist : list (deviceNetwork derivPaths) with _ | _ | ⟨device, others⟩
      · exact absurd (by rw [hlist]; rfl) hnone
      · exact absurd (by rw [hlist]; rfl) hnone
      · exact ⟨device, others, rfl⟩
    rcases returns_unlockBitbox device (deviceNetwork derivPaths) keyCaller ⟨false, []⟩ state with
      ⟨unlocked, hok⟩ | ⟨cause, hlocked⟩
    · exact .decided device others _ _ _ hlist (Prod.ext hok rfl)
        (decides_of_unlocked hlist (Prod.ext hok rfl))
    · rw [fetchEncryptionDeviceKey_of_locked hlist hlocked]
      exact .locked device others cause hlist hlocked

/-- Each of the three is what the command comes to. -/
theorem Fetches.fetchEncryptionDeviceKey_eq
    {result : Exec CliError (PublicKey × DerivationPath)}
    (hfetches : Fetches list derivPaths state result) :
    fetchEncryptionDeviceKey list state none derivPaths = result := by
  cases hfetches with
  | noDevice hnone => exact fetchEncryptionDeviceKey_of_noDevice hnone
  | locked device others cause hlist hlocked =>
      exact fetchEncryptionDeviceKey_of_locked hlist hlocked
  | decided device others channel state' _ hlist hunlock hdecides =>
      have hfirst := (decides_of_unlocked hlist hunlock).findSome?_eq
      exact Option.some.inj (hfirst.symm.trans hdecides.findSome?_eq)

/-- The command that is given no path comes to what the first answer decides, and to nothing
else: to a key exactly when one is granted before a path fails that had to be, to the failure of
such a path exactly when no key was granted before it. -/
theorem fetchEncryptionDeviceKey_eq_iff (list : Network → Option (List (Device δ))) (state : δ)
    (derivPaths : List DerivationPath) (result : Exec CliError (PublicKey × DerivationPath)) :
    fetchEncryptionDeviceKey list state none derivPaths = result ↔
      Fetches list derivPaths state result := by
  constructor
  · intro hresult
    rw [← hresult]
    exact fetches_fetchEncryptionDeviceKey list derivPaths state
  · exact Fetches.fetchEncryptionDeviceKey_eq

/-- The path of the key is the one that was given, or one of the plan. -/
theorem path_of_fetchEncryptionDeviceKey {found : PublicKey × DerivationPath}
    (hfetch : fetchEncryptionDeviceKey list state path derivPaths = .ok found) :
    path.elim (found.2 ∈ Ll.commonDerivationPaths (coinType (deviceNetwork derivPaths)) ∨
      found.2 ∈ derivPaths) (· = found.2) := by
  cases path with
  | none =>
      have hfetches := fetches_fetchEncryptionDeviceKey list derivPaths state
      rw [hfetch] at hfetches
      cases hfetches with
      | decided device others channel state' _ hlist hunlock hdecides =>
        cases hdecides with
        | granted before item rest _ hanswers _ hfound =>
            obtain ⟨xpub, -, rfl⟩ := Option.map_eq_some_iff.mp hfound
            have hplan := device.map_transcript false
              ((encryptCollector derivPaths).paths device.deviceKind) state'
            rw [hanswers] at hplan
            have hasked : item.path ∈
                ((encryptCollector derivPaths).paths device.deviceKind).map Prod.fst := by
              rw [← hplan, List.map_map]
              exact List.mem_map_of_mem (List.mem_append_right _ List.mem_cons_self)
            rw [XpubCollector.mem_map_fst_paths_iff, network_encryptCollector,
              derivPaths_encryptCollector] at hasked
            exact hasked
  | some path =>
      rw [fetchEncryptionDeviceKey] at hfetch
      obtain ⟨xpub, -, hfound⟩ := Exec.bind_eq_ok_iff.mp hfetch
      obtain ⟨_, -, rfl⟩ := Option.map_eq_some_iff.mp (Exec.okOr_eq_ok_iff.mp hfound)
      rfl

/-- A listed device, if there is one, yields a key or a failure of its own. -/
theorem fetchEncryptionDeviceKey_cases (list : Network → Option (List (Device δ))) (state : δ)
    (path : Option DerivationPath) (derivPaths : List DerivationPath) :
    ((list (encryptNetwork path derivPaths)).getD [] = [] ∧
      fetchEncryptionDeviceKey list state path derivPaths = .fail .noKeys) ∨
    (list (encryptNetwork path derivPaths)).getD [] ≠ [] ∧
      ((∃ found, fetchEncryptionDeviceKey list state path derivPaths = .ok found) ∨
        ∃ cause, fetchEncryptionDeviceKey list state path derivPaths =
          .fail (.failedToFetchXpub cause)) := by
  cases path with
  | none =>
      have hnetwork : encryptNetwork none derivPaths = deviceNetwork derivPaths := rfl
      rw [hnetwork]
      generalize hresult : fetchEncryptionDeviceKey list state none derivPaths = result
      have hfetches := fetches_fetchEncryptionDeviceKey list derivPaths state
      rw [hresult] at hfetches
      cases hfetches with
      | noDevice hnone => exact .inl ⟨hnone, rfl⟩
      | locked device others cause hlist hlocked =>
          rw [hlist]
          exact .inr ⟨List.cons_ne_nil _ _, .inr ⟨cause, rfl⟩⟩
      | decided device others channel state' _ hlist hunlock hdecides =>
          rw [hlist]
          refine .inr ⟨List.cons_ne_nil _ _, ?_⟩
          cases hdecides with
          | granted before item rest found hanswers hbefore hfound => exact .inl ⟨found, rfl⟩
          | failed before item rest cause hanswers hbefore hfatal => exact .inr ⟨cause, rfl⟩
  | some path =>
      have hnetwork : encryptNetwork (some path) derivPaths = deviceNetwork [path] := rfl
      rw [hnetwork, fetchEncryptionDeviceKey, fetchFirstXpubAtPath]
      rcases hlist : list (deviceNetwork [path]) with _ | _ | ⟨device, others⟩
      · rw [fetchFirstOriginXpubAtPath, hlist]
        exact .inl ⟨rfl, rfl⟩
      · rw [fetchFirstOriginXpubAtPath, hlist]
        exact .inl ⟨rfl, rfl⟩
      · refine .inr ⟨List.cons_ne_nil _ _, ?_⟩
        have hreturns := fetchFirstOriginXpubAtPath_returns hlist path printingCaller () state
        generalize fetchFirstOriginXpubAtPath path (deviceNetwork [path]) list printingCaller ()
          state = fetching at hreturns ⊢
        obtain ⟨outcome, host, state'⟩ := fetching
        obtain ⟨fetched, rfl⟩ | ⟨cause, rfl⟩ := hreturns
        · exact .inl ⟨_, rfl⟩
        · exact .inr ⟨_, rfl⟩

/-- The command finds no key exactly when there is no device. What else it comes to is a key,
at the path that was given or at one of the plan, or the failure of the device. -/
theorem fetchEncryptionDeviceKey_eq_noKeys_iff (list : Network → Option (List (Device δ)))
    (state : δ) (path : Option DerivationPath) (derivPaths : List DerivationPath) :
    (fetchEncryptionDeviceKey list state path derivPaths = .fail .noKeys ↔
      (list (encryptNetwork path derivPaths)).getD [] = []) ∧
    (fetchEncryptionDeviceKey list state path derivPaths = .fail .noKeys ∨
      (∃ found, fetchEncryptionDeviceKey list state path derivPaths = .ok found ∧
        path.elim (found.2 ∈ Ll.commonDerivationPaths (coinType (deviceNetwork derivPaths)) ∨
          found.2 ∈ derivPaths) (· = found.2)) ∨
      ∃ cause, fetchEncryptionDeviceKey list state path derivPaths =
        .fail (.failedToFetchXpub cause)) := by
  obtain ⟨hnone, hresult⟩ | ⟨hlisted, ⟨found, hresult⟩ | ⟨cause, hresult⟩⟩ :=
    fetchEncryptionDeviceKey_cases list state path derivPaths
  · exact ⟨iff_of_true hresult hnone, .inl hresult⟩
  · have hpath := path_of_fetchEncryptionDeviceKey hresult
    rw [hresult]
    exact ⟨iff_of_false (fun hsame => by cases hsame) hlisted, .inr (.inl ⟨found, rfl, hpath⟩)⟩
  · rw [hresult]
    exact ⟨iff_of_false (fun hsame => by cases hsame) hlisted, .inr (.inr ⟨cause, rfl⟩)⟩

end Outcomes

end Fetch

/-! ## What is written can be read with the device -/

section Reopening

variable [Miniscript] {msg : Option String} {descriptor : Descriptor}
  {pooled backup : EncryptedBackup} {key : PublicKey} {path : DerivationPath}
  {device : List DerivationPath → Exec CliError (PublicKey × DerivationPath)}

/-- What the command encrypts: the message, and the descriptor. -/
def commandContents (msg : Option String) (descriptor : Descriptor) : List TypedPayload :=
  msg.toList.map .string ++ [.descriptor descriptor]

/-- The message and the descriptor, each on a line of its own. -/
def commandDocument (msg : Option String) (descriptor : Descriptor) : Bytes :=
  (msg.toList.map asBytes ++ [asBytes descriptor.toString]).foldl appendLine []

section Contents

variable [SerdeJson] [Serde DescriptorBackup] [Serde PolicySet] [Serde PolicyBackup]

/-- The command encrypts what it is given, with and without a message, and leaves common paths
out. -/
theorem exists_encrypts_of_descriptorBackup
    (hpooled : descriptorBackup msg descriptor = .ok pooled) :
    pooled.storeCommonPaths = false ∧
      ∃ parts, List.Forall₂ ToPayload.Contributes
          ((commandContents msg descriptor).map TypedPayload.toPayload) parts ∧
        pooled.Encrypts (parts.map (·.item)) := by
  cases msg with
  | none =>
      obtain ⟨part, hpart, rfl⟩ :=
        EncryptedBackup.setPayload_eq_ok_iff.mp (Exec.mapErr_eq_ok_iff.mp hpooled)
      obtain ⟨bytes, -, hitem⟩ := hpart.item
      refine ⟨rfl, [part], .cons hpart .nil, ?_⟩
      have hcontents : [part].map (·.item) = [(.bip380, part.item.2)] := by
        rw [List.map_singleton, hitem]
        rfl
      rw [hcontents]
      exact .one _ rfl (show Content.bip380 ≠ .unknown by decide)
  | some text =>
      obtain ⟨-, parts, hparts, rfl⟩ :=
        EncryptedBackup.setPayloads_eq_ok_iff.mp (Exec.mapErr_eq_ok_iff.mp hpooled)
      exact ⟨rfl, parts, hparts, .many _ rfl⟩

theorem readable_commandContents
    (hparse : Descriptor.fromStr descriptor.toString = some descriptor) :
    ∀ payload ∈ commandContents msg descriptor, payload.Readable := by
  intro payload hpayload
  rcases List.mem_append.mp hpayload with htext | hlast
  · obtain ⟨text, -, rfl⟩ := List.mem_map.mp htext
    exact trivial
  · obtain rfl := List.mem_singleton.mp hlast
    exact hparse

/-- What the command encrypts is printed line by line. -/
theorem decryptedToDocument_commandContents (msg : Option String) (descriptor : Descriptor) :
    decryptedToDocument ((commandContents msg descriptor).map TypedPayload.decrypted) =
      .ok (commandDocument msg descriptor) := by
  rw [decryptedToDocument_eq_ok_iff]
  refine ⟨_, ?_, rfl⟩
  cases msg with
  | none => exact .cons rfl .nil
  | some text => exact .cons rfl (.cons rfl .nil)

end Contents

variable [Target] [Base64] [SerdeJson] [Serde DescriptorBackup] [Serde PolicySet]
  [Serde PolicyBackup] [V0] {crypto : Crypto} {entropy : Entropy ρ} {encrypted : Encrypted}

/-- What `encrypt --device` writes can be read with the device. The key it was given decrypts
the backup to the message and the descriptor; and whoever has a device and the backup asks for
the path of that key, on any network and whatever the device, exactly if the path is common on
that network, or is no common path and was not dropped along with a key of the descriptor. -/
theorem reopens_of_addDeviceKey (hparse : Descriptor.fromStr descriptor.toString = some descriptor)
    (hpooled : descriptorBackup msg descriptor = .ok pooled)
    (hdevice : device pooled.getDerivationPaths = .ok (key, path))
    (hadded : addDeviceKey pooled (some device) = .ok backup)
    (hencrypt : backup.encrypt crypto entropy = .ok encrypted)
    (hfits : encrypted.bytes.length ≤ isizeMax) (hideal : backup.IdealSealing crypto entropy) :
    ∃ loaded, EncryptedBackup.new.setEncryptedPayload encrypted.bytes = .ok loaded ∧
      (xonly key ∉ pooled.exposedKeys → xonly key ≠ bip341Nums →
        decryptDocument crypto (loaded.setKeys [key]) = .ok (commandDocument msg descriptor)) ∧
      ∀ (collector : XpubCollector) (kind : DeviceKind),
        collector.derivPaths = loaded.getDerivationPaths →
          (((collector.paths kind).map Prod.fst).count path = 1 ↔
            path ∈ Ll.commonDerivationPaths (coinType collector.network) ∨
              path ∉ fallbackDerivationPathSet ∧ KeepsPath pooled path) := by
  obtain ⟨key', path', hdevice', rfl⟩ := addDeviceKey_eq_ok_iff.mp hadded
  rw [hdevice, Except.ok.injEq, Prod.mk.injEq] at hdevice'
  obtain ⟨rfl, rfl⟩ := hdevice'
  obtain ⟨hcommon, parts, hparts, hitems⟩ := exists_encrypts_of_descriptorBackup hpooled
  obtain ⟨call, hcall, hcore, -⟩ := EncryptedBackup.encrypt_eq_ok_iff.mp hencrypt
  obtain ⟨stored, secrets, cyphertext, hdecode, -⟩ :=
    Entropy.decrypt_encryptItems hfits (hideal call hcall) hcore
  have hload := EncryptedBackup.setEncryptedPayload_eq_ok .new hdecode
  refine ⟨_, hload, fun hkept hnums => ?_, fun collector kind hpaths => ?_⟩
  · have hkey : key ∈ (withDevice pooled key path).keys := mem_keys_withDevice.mpr ⟨.inr rfl, hkept⟩
    have hread := EncryptedBackup.readBack_eq (encrypts_withDevice hitems) hencrypt hfits hideal
      ⟨key, List.mem_singleton_self key, hkey, hnums⟩
    rw [TypedPayload.extract_items (readable_commandContents hparse) hparts,
      EncryptedBackup.readBack, hload, Exec.ok_bind] at hread
    rw [decryptDocument, hread]
    exact decryptedToDocument_commandContents msg descriptor
  · have hstored :=
      @decodeDerivationPaths_encryptItems _ ρ crypto call entropy ⟨encrypted.bytes, hfits⟩ hcore
    rw [decodeDerivationPaths_of_decodeV1 hdecode, Except.ok.injEq] at hstored
    obtain ⟨-, -, -, _, -, rfl⟩ := EncryptedBackup.coreCall_eq_ok_iff.mp hcall
    rw [XpubCollector.count_paths_eq_one_iff, hpaths]
    refine or_congr_right ?_
    change path ∈ stored ↔ _
    rw [hstored, BTreeSet.mem_toList, mem_storedDerivationPaths, mem_derivationPaths_withDevice,
      show (withDevice pooled key path).storeCommonPaths = false from hcommon]
    simp [and_comm]

end Reopening

/-! ## A Ledger that tires -/

namespace Sample

open Bip138.Sample

def devicePath : DerivationPath := [hardened 48, hardened 1, hardened 10, hardened 2]

/-- The Ledger is asked for the key at this path. -/
def askLedger : List DerivationPath → Exec CliError (PublicKey × DerivationPath) :=
  fetchEncryptionDeviceKey oneLedger 0 (some devicePath)

theorem askLedger_eq (derivPaths : List DerivationPath) :
    askLedger derivPaths = .ok (xkey.publicKey, devicePath) := rfl

/-- The account is encrypted, and the key of the Ledger is among its keys. -/
theorem encrypt_account :
    ∃ pooled backup encrypted,
      descriptorBackup (some "note") account = .ok pooled ∧
      askLedger pooled.getDerivationPaths = .ok (xkey.publicKey, devicePath) ∧
      addDeviceKey pooled (some askLedger) = .ok backup ∧
      backup.encrypt sampleCrypto (entropy 1) = .ok encrypted ∧
      encrypted.bytes.length ≤ isizeMax ∧ pooled.exposedKeys = [] := by
  obtain ⟨⟨pooled, backup, encrypted⟩, hrun, htest⟩ := Exec.exists_eq_ok
    (do
      let pooled ← descriptorBackup (some "note") account
      let backup ← addDeviceKey pooled (some askLedger)
      let encrypted ← .mapErr .failedToEncrypt (backup.encrypt sampleCrypto (entropy 1))
      .ok (pooled, backup, encrypted))
    (fun (pooled, _, encrypted) =>
      encrypted.bytes.length ≤ isizeMax ∧ pooled.exposedKeys = [])
    (by decide +kernel)
  obtain ⟨_, hpooled, hrest⟩ := Exec.bind_eq_ok_iff.mp hrun
  obtain ⟨_, hadded, hrest⟩ := Exec.bind_eq_ok_iff.mp hrest
  obtain ⟨_, hencrypt, hpair⟩ := Exec.bind_eq_ok_iff.mp hrest
  cases hpair
  rw [Exec.mapErr_eq_ok_iff] at hencrypt
  exact ⟨pooled, backup, encrypted, hpooled, askLedger_eq _, hadded, hencrypt,
    of_decide_eq_true htest⟩

end Sample

open Cli.Sample Bip138.Sample in
/-- The account, encrypted with a Ledger at hand, is printed with its key, and the path of the
key is asked for. -/
theorem reopens_of_addDeviceKey_account :
    ∃ encrypted loaded,
      EncryptedBackup.new.setEncryptedPayload encrypted = .ok loaded ∧
      decryptDocument sampleCrypto (loaded.setKeys [xkey.publicKey]) =
        .ok (commandDocument (some "note") account) ∧
      ∀ (collector : XpubCollector) (kind : DeviceKind),
        collector.derivPaths = loaded.getDerivationPaths →
          ((collector.paths kind).map Prod.fst).count devicePath = 1 := by
  obtain ⟨pooled, backup, encrypted, hpooled, hfound, hadded, hencrypt, hfits, hexposed⟩ :=
    encrypt_account
  obtain ⟨loaded, hload, hreads, hasked⟩ := reopens_of_addDeviceKey
    (show Descriptor.fromStr account.toString = some account by decide +kernel) hpooled hfound
    hadded hencrypt hfits (idealSealing_entropy 1 _)
  have hclear : ∀ key : PublicKey, xonly key ∉ pooled.exposedKeys := by
    rw [hexposed]
    exact fun _ => List.not_mem_nil
  refine ⟨encrypted.bytes, loaded, hload, hreads (hclear _) (by decide +kernel), ?_⟩
  intro collector kind hpaths
  exact (hasked collector kind hpaths).mpr
    (.inr ⟨by decide +kernel, .inr fun key _ => hclear key⟩)

end Bip138.Cli
