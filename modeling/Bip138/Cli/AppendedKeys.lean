/-
# The keys file that fetch writes

`fetch -o` appends the extended key it got from a device, with its origin, to a file, on a line
of its own. `encrypt --keys` reads the levels of a backup from such a file. Whatever the fetches
in between did, the file then has the levels it had before, and one more for each key that was
fetched, in their order (`parseWrapKeys_session_iff`): unless the key of the master itself was
fetched, which is written with an origin that no key expression may have, so that the whole file
is refused.

The bitcoin crate prints the parts of a line, and miniscript reads it. What is assumed of the two
is said of each (`PrintsPlain`, `ReadsLine`).
-/

import Bip138.Front.Suffix
import Bip138.Cli.DeviceKey

namespace Bip138.Cli

open Bip138.Rust Bip138.Ll

/-- `Display` of the parts of an extended key with its origin, from the bitcoin crate. -/
class OriginDisplay extends PathDisplay where
  fingerprintToString : Fingerprint → String
  xpubToString : Xpub → String

variable {δ : Type}

section Code

variable [OriginDisplay]

def originXpub (fingerprint : Fingerprint) (path : DerivationPath) (xpub : Xpub) : String :=
  "[" ++ OriginDisplay.fingerprintToString fingerprint ++ "/" ++
    PathDisplay.derivationPathToString path ++ "]" ++ OriginDisplay.xpubToString xpub

/-- What the command is given: its options, the devices that are listed for a network, and the
state of the one that is asked. -/
structure FetchCommand (δ : Type) where
  path : DerivationPath
  testnet : Bool
  list : Network → Option (List (Device δ))
  state : δ

namespace FetchCommand

omit [OriginDisplay] in
def network (command : FetchCommand δ) : Network :=
  if command.testnet then .testnet else deviceNetwork [command.path]

omit [OriginDisplay] in
/-- The key the command gets. -/
def fetched (command : FetchCommand δ) : Exec CliError FetchedXpub := do
  let fetched ← .mapErr .failedToFetchXpub
    (fetchFirstOriginXpubAtPath command.path command.network command.list printingCaller ()
      command.state).1
  .okOr fetched .noKeys

/-- The line the command prints. -/
def line (command : FetchCommand δ) : Exec CliError String := do
  let fetched ← command.fetched
  .ok (originXpub fetched.fingerprint command.path fetched.xpub)

omit [OriginDisplay] in
/-- The file with a line more. -/
def appendLine (file line : String) : String := file ++ line ++ "\n"

/-- The file after the command, which leaves it alone when it fails. -/
def run (file : String) (command : FetchCommand δ) : String :=
  match command.line with
  | .ok line => appendLine file line
  | .error _ => file

/-- The file after one command and another. -/
def session (file : String) (commands : List (FetchCommand δ)) : String := commands.foldl run file

end FetchCommand

end Code

/-- A key that a device granted, with the path it was asked for. -/
structure Grant where
  path : DerivationPath
  fetched : FetchedXpub

namespace Grant

def key (grant : Grant) : DescriptorPublicKey :=
  .xPub ⟨some (grant.fetched.fingerprint, grant.path), grant.fetched.xpub, [], .none⟩

/-- The level of a keys file for which one key was fetched. -/
def level (grant : Grant) : WrapLevel := ⟨none, [grant.key]⟩

def line [OriginDisplay] (grant : Grant) : String :=
  originXpub grant.fetched.fingerprint grant.path grant.fetched.xpub

end Grant

def FetchCommand.grant? (command : FetchCommand δ) : Option Grant :=
  match command.fetched with
  | .ok fetched => some ⟨command.path, fetched⟩
  | .error _ => none

/-- The first device of the list told its fingerprint, and granted the key at the path. -/
def GrantedBy (devices : Option (List (Device δ))) (path : DerivationPath)
    (fetched : FetchedXpub) : Prop :=
  ∃ device others asked asked', devices = some (device :: others) ∧
    (device.getMasterFingerprint asked).1 = .ok fetched.fingerprint ∧
    (device.getExtendedPubkey path promptTimeout asked').1 = .xpub fetched.xpub

theorem grantedBy_of_fetched {path : DerivationPath} {network : Network}
    {list : Network → Option (List (Device δ))} {state : δ} {fetched : FetchedXpub}
    (hfetched : (fetchFirstOriginXpubAtPath path network list printingCaller () state).1 =
      .ok (some fetched)) : GrantedBy (list network) path fetched := by
  rw [fetchFirstOriginXpubAtPath] at hfetched
  split at hfetched
  · cases hfetched
  · cases hfetched
  · next device others hlist =>
      dsimp only at hfetched
      split at hfetched
      · cases hfetched
      · next host state' _ =>
          split at hfetched
          · cases hfetched
          · next fingerprint state'' hfingerprint =>
              split at hfetched
              · next xpub later hanswer =>
                  cases hfetched
                  exact ⟨device, others, state', _, hlist, congrArg Prod.fst hfingerprint,
                    congrArg Prod.fst hanswer⟩
              · cases hfetched
              · cases hfetched

namespace FetchCommand

def grants (commands : List (FetchCommand δ)) : List Grant := commands.filterMap grant?

theorem path_of_grant? {command : FetchCommand δ} {grant : Grant}
    (hgrant : command.grant? = some grant) : command.path = grant.path := by
  rw [grant?] at hgrant
  split at hgrant
  · cases hgrant
    rfl
  · cases hgrant

theorem grantedBy_of_grant? {command : FetchCommand δ} {grant : Grant}
    (hgrant : command.grant? = some grant) :
    GrantedBy (command.list command.network) grant.path grant.fetched := by
  rw [grant?, fetched] at hgrant
  split at hgrant
  · next got hgot =>
      cases hgrant
      obtain ⟨found, hfound, hsome⟩ := Exec.bind_eq_ok_iff.mp hgot
      rw [Exec.okOr_eq_ok_iff] at hsome
      rw [Exec.mapErr_eq_ok_iff, hsome] at hfound
      exact grantedBy_of_fetched hfound
  · cases hgrant

end FetchCommand

/-- The level is encrypted to the key and stores its path. -/
theorem Grant.wrapLevel (grant : Grant) :
    wrapLevelPublicKeys grant.level = [grant.fetched.xpub.publicKey] ∧
      wrapLevelDerivationPaths grant.level = [grant.path] := by
  have hroot : dpkToPk grant.key = .fail .invalidKeyExpression := rfl
  refine ⟨?_, ?_⟩
  · rw [wrapLevelPublicKeys, level, List.foldl_cons, List.foldl_nil, hroot]
    rfl
  · rw [wrapLevelDerivationPaths]
    rfl

section Reading

/-- Neither white space nor the bar between two keys. -/
def Plain (text : String) : Prop := ∀ char ∈ text.toList, isWhitespace char = false ∧ char ≠ '|'

theorem plain_of_all {text : String}
    (hall : (text.toList.all fun char => !isWhitespace char && char != '|') = true) :
    Plain text := by
  simpa [Plain] using hall

/-- Hexadecimal digits, a path, and base58. -/
structure PrintsPlain [OriginDisplay] : Prop where
  fingerprint : ∀ fingerprint, Plain (OriginDisplay.fingerprintToString fingerprint)
  path : ∀ path, Plain (PathDisplay.derivationPathToString path)
  xpub : ∀ xpub, Plain (OriginDisplay.xpubToString xpub)

/-- A key with its origin is read back, and an origin that ends with a slash is refused. -/
def ReadsLine [Miniscript] [OriginDisplay] (grant : Grant) : Prop :=
  Miniscript.keyFromStr grant.line = if grant.path = [] then none else some grant.key

variable [OriginDisplay] {grant : Grant}

theorem Grant.plain_line (hprints : PrintsPlain) (grant : Grant) : Plain grant.line := by
  intro char hchar
  simp only [line, originXpub, String.toList_append, List.mem_append] at hchar
  have hpunctuation : Plain "[/]" := plain_of_all (by decide +kernel)
  rcases hchar with ((((hchar | hchar) | hchar) | hchar) | hchar) | hchar
  · exact hpunctuation char (by simp_all)
  · exact hprints.fingerprint _ char hchar
  · exact hpunctuation char (by simp_all)
  · exact hprints.path _ char hchar
  · exact hpunctuation char (by simp_all)
  · exact hprints.xpub _ char hchar

theorem Grant.toList_line (grant : Grant) : ∃ rest, grant.line.toList = '[' :: rest := by
  simp only [line, originXpub, String.toList_append]
  exact ⟨_, rfl⟩

variable [Miniscript] {levels : List WrapLevel}

omit [OriginDisplay] in
/-- A line without bars and white space is one key. -/
theorem parseWrapKeysStep_plain {line : String} (hplain : Plain line) (hempty : line ≠ "")
    (hcomment : startsWithChar line '#' = false) :
    parseWrapKeysStep levels line = (do
      let key ← parseWrapKey line
      .ok (levels ++ [⟨none, [key]⟩])) := by
  have htrim : trim line = line := trim_eq_self fun char hchar => (hplain char hchar).1
  have hbar : '|' ∉ line.toList := fun hbar => (hplain _ hbar).2 rfl
  have honce : splitOnce line "||" = none := @splitOnce_eq_none _ _ '|' (by decide) hbar
  have hkeys : ((splitAll line '|').map trim).filter (· ≠ "") = [line] := by
    rw [splitAll_eq_singleton hbar, List.map_singleton, htrim]
    exact List.filter_eq_self.mpr fun other hother => by
      rw [List.mem_singleton.mp hother]
      exact decide_eq_true hempty
  rw [parseWrapKeysStep, htrim, if_neg (by simp [hempty, hcomment]), parseWrapLine, honce]
  dsimp only
  rw [hkeys, List.mapM_cons, List.mapM_nil]
  rcases parseWrapKey line with fault | key
  · rfl
  · rfl

/-- The line of a grant is read as its level, unless it is of the master key. -/
theorem parseWrapKeysStep_line (hprints : PrintsPlain) (hreads : ReadsLine grant) :
    parseWrapKeysStep levels grant.line =
      if grant.path = [] then .fail .cantConvertToXpub else .ok (levels ++ [grant.level]) := by
  obtain ⟨rest, hline⟩ := grant.toList_line
  have hempty : grant.line ≠ "" := by
    intro hempty
    rw [hempty] at hline
    cases hline
  have hcomment : startsWithChar grant.line '#' = false := by
    rw [startsWithChar, hline]
    rfl
  rw [parseWrapKeysStep_plain (grant.plain_line hprints) hempty hcomment, parseWrapKey, hreads]
  by_cases hmaster : grant.path = []
  · rw [if_pos hmaster, if_pos hmaster]
    rfl
  · rw [if_neg hmaster, if_neg hmaster]
    rfl

/-- The lines of grants are read as their levels, unless one is of the master key. -/
theorem foldlM_parseWrapKeysStep_grants (hprints : PrintsPlain) {grants : List Grant}
    (hreads : ∀ grant ∈ grants, ReadsLine grant) :
    (grants.map Grant.line).foldlM parseWrapKeysStep levels =
      if ∃ grant ∈ grants, grant.path = [] then .fail .cantConvertToXpub
      else .ok (levels ++ grants.map Grant.level) := by
  induction grants generalizing levels with
  | nil =>
      rw [List.map_nil, List.foldlM_nil, if_neg (by simp), List.map_nil, List.append_nil]
      rfl
  | cons grant grants ih =>
      obtain ⟨hfirst, hrest⟩ := List.forall_mem_cons.mp hreads
      rw [List.map_cons, List.foldlM_cons, parseWrapKeysStep_line hprints hfirst]
      by_cases hmaster : grant.path = []
      · rw [if_pos hmaster, if_pos ⟨grant, List.mem_cons_self, hmaster⟩]
        rfl
      · rw [if_neg hmaster, Exec.ok_bind, ih hrest]
        simp only [List.exists_mem_cons_iff, hmaster, false_or, List.map_cons, List.append_assoc,
          List.singleton_append]

end Reading

namespace FetchCommand

variable [OriginDisplay] {file : String} {commands : List (FetchCommand δ)} {grant : Grant}

/-- A command that succeeds appends its line, and one that fails does nothing. -/
theorem run_eq (file : String) (command : FetchCommand δ) :
    run file command =
      command.grant?.toList.foldl (fun file grant => appendLine file grant.line) file := by
  rw [run, line, grant?]
  rcases command.fetched with fault | fetched
  · rfl
  · rfl

/-- A session appends the lines of its grants. -/
theorem session_eq (file : String) (commands : List (FetchCommand δ)) :
    session file commands =
      (grants commands).foldl (fun file grant => appendLine file grant.line) file := by
  induction commands generalizing file with
  | nil => rfl
  | cons command commands ih =>
      rw [session, List.foldl_cons, ← session, ih, run_eq, grants, grants, List.filterMap_cons]
      cases command.grant? with
      | none => rfl
      | some grant => rfl

omit [OriginDisplay] in
theorem lines_appendLine (hwhole : WholeLines file) {line : String} (hplain : Plain line) :
    lines (appendLine file line) = lines file ++ [line] := by
  have hfeed : '\n' ∉ line.toList := fun hfeed => by
    have hblank := (hplain _ hfeed).1
    cases hblank
  have hreturn : line.toList.getLast? ≠ some '\r' := fun hreturn => by
    have hblank := (hplain _ (List.mem_of_getLast? hreturn)).1
    cases hblank
  rw [appendLine, String.append_assoc, lines_append hwhole, lines_line hfeed hreturn]

omit [OriginDisplay] in
theorem wholeLines_appendLine (file line : String) : WholeLines (appendLine file line) :=
  .inr ⟨file ++ line, rfl⟩

theorem lines_appendLines (hprints : PrintsPlain) (hwhole : WholeLines file) (grants : List Grant) :
    lines (grants.foldl (fun file grant => appendLine file grant.line) file) =
      lines file ++ grants.map Grant.line := by
  induction grants generalizing file with
  | nil => rw [List.foldl_nil, List.map_nil, List.append_nil]
  | cons grant grants ih =>
      rw [List.foldl_cons, ih (wholeLines_appendLine file grant.line),
        lines_appendLine hwhole (grant.plain_line hprints), List.map_cons, List.append_assoc,
        List.singleton_append]

variable [Miniscript]

/-- What a session leaves is read as what was there and the levels of its grants, unless it
fetched the key of a master. -/
theorem parseWrapKeys_session (hprints : PrintsPlain) (hwhole : WholeLines file)
    (hreads : ∀ grant ∈ grants commands, ReadsLine grant) :
    parseWrapKeys (session file commands) = (do
      let levels ← parseWrapKeys file
      if ∃ grant ∈ grants commands, grant.path = [] then .fail .cantConvertToXpub
      else .ok (levels ++ (grants commands).map Grant.level)) := by
  rw [session_eq, parseWrapKeys, lines_appendLines hprints hwhole, List.foldlM_append]
  congr 1
  funext levels
  exact foldlM_parseWrapKeysStep_grants hprints hreads

/-- Fetches and `encrypt --keys` agree. However many fetches append to a keys file, and
whichever of them fail, the file is still one exactly if it was one before and no fetch was of a
master key; it then has the levels it had, and after them one level for each fetch that
succeeded, in their order: without a note, encrypted to the one key that the device granted, and
storing the path it granted it at. -/
theorem parseWrapKeys_session_iff (hprints : PrintsPlain) (hwhole : WholeLines file)
    (hreads : ∀ grant ∈ grants commands, ReadsLine grant) :
    (∀ levels, parseWrapKeys (session file commands) = .ok levels ↔
      (∀ grant ∈ grants commands, grant.path ≠ []) ∧
        ∃ earlier, parseWrapKeys file = .ok earlier ∧
          levels = earlier ++ (grants commands).map Grant.level) ∧
    ∀ grant ∈ grants commands,
      (∃ command ∈ commands,
        command.path = grant.path ∧
        GrantedBy (command.list command.network) grant.path grant.fetched) ∧
      grant.level.msg = none ∧
      wrapLevelPublicKeys grant.level = [grant.fetched.xpub.publicKey] ∧
      wrapLevelDerivationPaths grant.level = [grant.path] := by
  refine ⟨fun levels => ?_, fun grant hgrant => ?_⟩
  · rw [parseWrapKeys_session hprints hwhole hreads, Exec.bind_eq_ok_iff]
    by_cases hmaster : ∃ grant ∈ grants commands, grant.path = []
    · obtain ⟨grant, hgrant, hpath⟩ := id hmaster
      simp only [if_pos hmaster]
      refine iff_of_false ?_ fun hkept => hkept.1 grant hgrant hpath
      rintro ⟨earlier, -, hlevels⟩
      exact Exec.fail_ne_ok _ _ hlevels
    · simp only [if_neg hmaster]
      have hkept : ∀ grant ∈ grants commands, grant.path ≠ [] := fun grant hgrant hpath =>
        hmaster ⟨grant, hgrant, hpath⟩
      refine ⟨fun ⟨earlier, hearlier, hlevels⟩ => ?_, fun ⟨_, earlier, hearlier, hlevels⟩ => ?_⟩
      · exact ⟨hkept, earlier, hearlier, (Except.ok.inj hlevels).symm⟩
      · exact ⟨earlier, hearlier, congrArg Except.ok hlevels.symm⟩
  · obtain ⟨command, hcommand, hgrant⟩ := List.mem_filterMap.mp hgrant
    exact ⟨⟨command, hcommand, path_of_grant? hgrant, grantedBy_of_grant? hgrant⟩, rfl,
      grant.wrapLevel⟩

end FetchCommand

namespace FetchCommand.Sample

open Bip138.Sample (tpub xkey masterFingerprint accountPath)

/-- The printer of the parts of a key, which knows one extended key. -/
scoped instance originDisplay : OriginDisplay where
  fingerprintToString fingerprint := .ofList (fingerprint.1.flatMap fun byte =>
    [Nat.digitChar (byte.toNat / 16), Nat.digitChar (byte.toNat % 16)])
  derivationPathToString := writtenPath
  xpubToString _ := tpub

theorem plain_digit {char : Char} (hdigit : char.isDigit = true) :
    isWhitespace char = false ∧ char ≠ '|' := by
  rw [Char.isDigit, Bool.and_eq_true, decide_eq_true_eq, decide_eq_true_eq] at hdigit
  have hlow : 48 ≤ char.toNat := hdigit.1
  have hhigh : char.toNat ≤ 57 := hdigit.2
  refine ⟨Bool.eq_false_iff.mpr fun hblank => ?_, fun hbar => ?_⟩
  · have hcode := toNat_mem_whitespaceCodes hblank
    simp only [whitespaceCodes, List.mem_cons, List.not_mem_nil, or_false] at hcode
    omega
  · rw [hbar] at hhigh
    exact absurd hhigh (by decide)

theorem printsPlain : PrintsPlain where
  fingerprint fingerprint char hchar := by
    rw [OriginDisplay.fingerprintToString, originDisplay, String.toList_ofList] at hchar
    have hall : ∀ value < 16, isWhitespace (Nat.digitChar value) = false ∧
        Nat.digitChar value ≠ '|' := by decide +kernel
    obtain ⟨byte, -, hdigit⟩ := List.mem_flatMap.mp hchar
    have hbyte := byte.toNat_lt
    rcases List.mem_pair.mp hdigit with rfl | rfl
    · exact hall _ (by omega)
    · exact hall _ (by omega)
  path path char hchar := by
    rcases char_of_mem_writtenPath hchar with hdigit | rfl | rfl
    · exact plain_digit hdigit
    · decide +kernel
    · decide +kernel
  xpub _ := plain_of_all (show (tpub.toList.all _) = true by decide +kernel)

/-- A Ledger with the account of the sample, whatever it is asked for. -/
def accountLedger : Device Unit where
  deviceKind := .ledger
  display _ state := state
  getMasterFingerprint state := (.ok masterFingerprint, state)
  getExtendedPubkey _ _ state := (.xpub xkey, state)

/-- A fetch from the Ledger, and one without it. -/
def commands : List (FetchCommand Unit) :=
  [⟨accountPath, true, fun _ => some [accountLedger], ()⟩, ⟨accountPath, true, fun _ => none, ()⟩]

def accountGrant : Grant := ⟨accountPath, masterFingerprint, xkey⟩

/-- A reader that knows the line of the Ledger. -/
scoped instance miniscript : Miniscript :=
  { Bip138.Sample.miniscript with
    keyFromStr := fun text =>
      if text = "[58b7f8dc/48'/1'/0'/2']" ++ tpub then some accountGrant.key else none }

end FetchCommand.Sample

open FetchCommand FetchCommand.Sample in
/-- The file of the Ledger has one level. -/
theorem parseWrapKeys_session_iff_ledger :
    grants commands = [accountGrant] ∧
    (∀ levels, parseWrapKeys (session "" commands) = .ok levels ↔
      (∀ grant ∈ grants commands, grant.path ≠ []) ∧
        ∃ earlier, parseWrapKeys "" = .ok earlier ∧
          levels = earlier ++ (grants commands).map Grant.level) ∧
    ∀ grant ∈ grants commands,
      (∃ command ∈ commands, command.path = grant.path ∧
        GrantedBy (command.list command.network) grant.path grant.fetched) ∧
      grant.level.msg = none ∧
      wrapLevelPublicKeys grant.level = [grant.fetched.xpub.publicKey] ∧
      wrapLevelDerivationPaths grant.level = [grant.path] := by
  have hgrants : grants commands = [accountGrant] := rfl
  refine ⟨hgrants, parseWrapKeys_session_iff printsPlain (.inl rfl) fun grant hgrant => ?_⟩
  rw [hgrants, List.mem_singleton] at hgrant
  rw [hgrant, ReadsLine]
  decide +kernel

end Bip138.Cli
