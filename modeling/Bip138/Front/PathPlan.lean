/-
# The plan of the paths a device is asked for

A collector asks a device for the paths of the envelope first, in the order they are listed
there, and then for the other common paths: those every device lets be fetched before those
some refuse, by purpose in the order the caller gives, and by path. The map the paths are
collected in decides what is expected of each, and comes out in the order of the paths; the
stable sort that follows keeps that order where its own key does not tell paths apart.
-/

import Bip138.Front.Collector
import Bip138.Rust.FirstSeen
import Bip138.Rust.StableSort

namespace Bip138

open Bip138.Rust Bip138.Ll

/-- Where the purpose of a path stands in an ordering; after all of it when it is absent. -/
def purposePlace (ordering : List UInt32) (path : DerivationPath) : ℕ :=
  (pathPurpose path).elim ordering.length ordering.idxOf

/-- The order of the common paths that are not in the envelope. -/
def AskedBefore (kind : DeviceKind) (ordering : List UInt32) (first second : DerivationPath) :
    Prop :=
  (commonDerivationPathExpect kind first = .mustFetch ∧
    commonDerivationPathExpect kind second = .canFail) ∨
  (commonDerivationPathExpect kind first = commonDerivationPathExpect kind second ∧
    (purposePlace ordering first < purposePlace ordering second ∨
      purposePlace ordering first = purposePlace ordering second ∧ first < second))

theorem commonDerivationPathExpect_eq (kind : DeviceKind) (path : DerivationPath) :
    commonDerivationPathExpect kind path = .mustFetch ∨
      commonDerivationPathExpect kind path = .canFail := by
  unfold commonDerivationPathExpect
  split
  · exact .inr rfl
  · exact .inr rfl
  · exact .inr rfl
  · exact .inl rfl

/-- The map keeps its paths in their order. -/
theorem compare_path_eq_lt_iff {first second : DerivationPath} :
    compare first second = .lt ↔ first < second := by
  induction first generalizing second with
  | nil => cases second <;> simp
  | cons head first ih =>
      cases second with
      | nil => simp
      | cons head' second =>
          rw [List.compare_cons_cons, List.cons_lt_cons_iff, Ordering.then_eq_lt, ih,
            compare_lt_iff_lt, compare_eq_iff_eq]

namespace XpubCollector

variable {collector : XpubCollector} {kind : DeviceKind} {path : DerivationPath}
  {expect : Expect}

theorem envelopePriority_eq : collector.envelopePriority path = collector.derivPaths.idxOf path :=
  (List.idxOf_eq_getD_idxOf? path collector.derivPaths).symm

theorem priority_eq : collector.priority path = purposePlace collector.ordering path := by
  unfold priority purposePlace
  cases pathPurpose path with
  | none => rfl
  | some purpose => exact (List.idxOf_eq_getD_idxOf? purpose collector.ordering).symm

theorem getElem?_foldl_insertIfNew {paths : List DerivationPath}
    {map : Std.TreeMap DerivationPath Expect compare} :
    (paths.foldl (fun map path => map.insertIfNew path expect) map)[path]? =
      map[path]?.or (if path ∈ paths then some expect else none) := by
  induction paths generalizing map with
  | nil => simp
  | cons head paths ih =>
      rw [List.foldl_cons, ih, Std.TreeMap.getElem?_insertIfNew]
      by_cases hhead : head = path
      · subst hhead
        by_cases hmem : head ∈ map
        · rw [if_neg fun hnew => hnew.2 hmem]
          obtain ⟨value, hvalue⟩ := Option.isSome_iff_exists.mp
            (Std.TreeMap.isSome_getElem?_iff_mem.mpr hmem)
          rw [hvalue, Option.some_or, Option.some_or]
        · rw [if_pos ⟨Std.ReflCmp.compare_self, hmem⟩, Std.TreeMap.getElem?_eq_none hmem,
            Option.some_or, Option.none_or, if_pos List.mem_cons_self]
      · have hpath : path ∈ head :: paths ↔ path ∈ paths := by
          rw [List.mem_cons, or_iff_right (Ne.symm hhead)]
        rw [if_neg fun hnew => hhead (Std.LawfulEqCmp.compare_eq_iff_eq.mp hnew.1)]
        simp only [hpath]

theorem getElem?_insertMany_common {paths : List DerivationPath}
    {map : Std.TreeMap DerivationPath Expect compare} :
    (map.insertMany (paths.map fun path => (path, commonDerivationPathExpect kind path)))[path]? =
      if path ∈ paths then some (commonDerivationPathExpect kind path) else map[path]? := by
  induction paths generalizing map with
  | nil => simp
  | cons head paths ih =>
      rw [List.map_cons, Std.TreeMap.insertMany_cons, ih, Std.TreeMap.getElem?_insert]
      by_cases hmem : path ∈ paths
      · rw [if_pos hmem, if_pos (List.mem_cons_of_mem head hmem)]
      · rw [if_neg hmem]
        by_cases hhead : head = path
        · subst hhead
          rw [if_pos Std.ReflCmp.compare_self, if_pos List.mem_cons_self]
        · have hpath : path ∉ head :: paths := by
            rw [List.mem_cons, or_iff_left hmem]
            exact Ne.symm hhead
          rw [if_neg fun hsame => hhead (Std.LawfulEqCmp.compare_eq_iff_eq.mp hsame), if_neg hpath]

/-- A common path keeps what the device expects of it, and any other of the envelope is one
the user is prompted for. -/
theorem getElem?_pathMap : (collector.pathMap kind)[path]? =
    if path ∈ Ll.commonDerivationPaths (coinType collector.network) then
      some (commonDerivationPathExpect kind path)
    else if path ∈ collector.derivPaths then some .promptUser else none := by
  rw [pathMap, getElem?_foldl_insertIfNew, commonDerivationPaths,
    Std.TreeMap.ofList_eq_insertMany_empty, getElem?_insertMany_common]
  by_cases hcommon : path ∈ Ll.commonDerivationPaths (coinType collector.network)
  · rw [if_pos hcommon, if_pos hcommon, Option.some_or]
  · rw [if_neg hcommon, if_neg hcommon, Std.TreeMap.getElem?_emptyc, Option.none_or]

theorem mem_paths_iff : (path, expect) ∈ collector.paths kind ↔
    (collector.pathMap kind)[path]? = some expect := by
  rw [paths, List.mem_mergeSort, Std.TreeMap.mem_toList_iff_getElem?_eq_some]

theorem mem_map_fst_paths_iff : path ∈ (collector.paths kind).map Prod.fst ↔
    path ∈ Ll.commonDerivationPaths (coinType collector.network) ∨
      path ∈ collector.derivPaths := by
  rw [← @mem_pathMap collector kind path, ← Std.TreeMap.mem_keys,
    ← Std.TreeMap.map_fst_toList_eq_keys]
  exact ((List.mergeSort_perm _ _).map Prod.fst).mem_iff

/-- Every path is tried once. -/
theorem nodup_map_fst_paths (collector : XpubCollector) (kind : DeviceKind) :
    ((collector.paths kind).map Prod.fst).Nodup := by
  refine ((List.mergeSort_perm _ _).map Prod.fst).nodup_iff.mpr ?_
  rw [Std.TreeMap.map_fst_toList_eq_keys]
  exact Std.TreeMap.nodup_keys

/-- The paths are in the order of their ranks, and of one rank in their own order. -/
theorem pairwise_paths : (collector.paths kind).Pairwise fun first second =>
    collector.rank first < collector.rank second ∨
      collector.rank first = collector.rank second ∧ first.1 < second.1 := by
  have hkeys := Std.TreeMap.ordered_keys_toList (t := collector.pathMap kind)
  exact pairwise_mergeSort_of_pairwise (hkeys.imp fun hless => compare_path_eq_lt_iff.mp hless)

theorem rank_lt_iff {first second : DerivationPath × Expect} :
    collector.rank first < collector.rank second ↔
      collector.derivPaths.idxOf first.1 < collector.derivPaths.idxOf second.1 ∨
      collector.derivPaths.idxOf first.1 = collector.derivPaths.idxOf second.1 ∧
        (first.2.priority < second.2.priority ∨
          first.2.priority = second.2.priority ∧
            purposePlace collector.ordering first.1 < purposePlace collector.ordering second.1) := by
  simp only [rank, Prod.Lex.toLex_lt_toLex, envelopePriority_eq, priority_eq]

theorem rank_eq_iff {first second : DerivationPath × Expect} :
    collector.rank first = collector.rank second ↔
      collector.derivPaths.idxOf first.1 = collector.derivPaths.idxOf second.1 ∧
        first.2.priority = second.2.priority ∧
          purposePlace collector.ordering first.1 = purposePlace collector.ordering second.1 := by
  simp only [rank, EmbeddingLike.apply_eq_iff_eq, Prod.mk.injEq, envelopePriority_eq, priority_eq]

/-- The envelope comes first. -/
theorem idxOf_le_of_pairwise_paths : (collector.paths kind).Pairwise fun first second =>
    collector.derivPaths.idxOf first.1 ≤ collector.derivPaths.idxOf second.1 := by
  refine pairwise_paths.imp fun hbefore => ?_
  rcases hbefore with hless | ⟨hsame, -⟩
  · rcases rank_lt_iff.mp hless with hplace | ⟨hplace, -⟩
    · exact hplace.le
    · exact hplace.le
  · exact (rank_eq_iff.mp hsame).1.le

/-- Of two paths that are not in the envelope, the one that is asked for first. -/
theorem askedBefore_of_mem_paths {first second : DerivationPath × Expect}
    (hfirst : first ∈ collector.paths kind) (hsecond : second ∈ collector.paths kind)
    (hnew : first.1 ∉ collector.derivPaths) (hnew' : second.1 ∉ collector.derivPaths)
    (hbefore : collector.rank first < collector.rank second ∨
      collector.rank first = collector.rank second ∧ first.1 < second.1) :
    AskedBefore kind collector.ordering first.1 second.1 := by
  have hexpect : ∀ item ∈ collector.paths kind, item.1 ∉ collector.derivPaths →
      item.2 = commonDerivationPathExpect kind item.1 := by
    intro item hitem hitemNew
    have hlookup := mem_paths_iff.mp hitem
    rw [getElem?_pathMap, if_neg hitemNew] at hlookup
    split at hlookup
    · exact (Option.some.inj hlookup).symm
    · cases hlookup
  have hplace : collector.derivPaths.idxOf first.1 = collector.derivPaths.idxOf second.1 := by
    rw [List.idxOf_eq_length_iff.mpr hnew, List.idxOf_eq_length_iff.mpr hnew']
  rw [rank_lt_iff, rank_eq_iff, hexpect first hfirst hnew, hexpect second hsecond hnew',
    or_iff_right hplace.not_lt, and_iff_right hplace, and_iff_right hplace] at hbefore
  rcases commonDerivationPathExpect_eq kind first.1 with hmust | hcan <;>
    rcases commonDerivationPathExpect_eq kind second.1 with hmust' | hcan'
  · rw [hmust, hmust'] at hbefore
    refine .inr ⟨hmust.trans hmust'.symm, ?_⟩
    simpa [or_and_right] using hbefore
  · exact .inl ⟨hmust, hcan'⟩
  · rw [hcan, hmust'] at hbefore
    simp [Expect.priority] at hbefore
  · rw [hcan, hcan'] at hbefore
    refine .inr ⟨hcan.trans hcan'.symm, ?_⟩
    simpa using hbefore

/-- The envelope lists the path. -/
def lists (collector : XpubCollector) (item : DerivationPath × Expect) : Bool :=
  collector.derivPaths.contains item.1

theorem lists_iff {item : DerivationPath × Expect} :
    collector.lists item = true ↔ item.1 ∈ collector.derivPaths :=
  List.contains_iff_mem

theorem filter_append_filter_paths :
    (collector.paths kind).filter collector.lists ++
      (collector.paths kind).filter (fun item => !collector.lists item) =
        collector.paths kind := by
  apply filter_append_filter_not_of_pairwise
  refine idxOf_le_of_pairwise_paths.imp fun hplace hsecond => ?_
  rw [lists_iff, ← List.idxOf_lt_length_iff] at hsecond ⊢
  exact hplace.trans_lt hsecond

/-- The paths of the envelope are asked for in the order they are first listed. -/
theorem map_fst_filter_paths (collector : XpubCollector) (kind : DeviceKind) :
    ((collector.paths kind).filter collector.lists).map Prod.fst =
      collector.derivPaths.eraseDups := by
  apply eq_eraseDups_of_pairwise_idxOf
  · intro path
    rw [List.mem_map]
    constructor
    · rintro ⟨item, hitem, rfl⟩
      exact lists_iff.mp (List.mem_filter.mp hitem).2
    · intro hpath
      have hplanned : path ∈ (collector.paths kind).map Prod.fst :=
        mem_map_fst_paths_iff.mpr (.inr hpath)
      obtain ⟨item, hitem, rfl⟩ := List.mem_map.mp hplanned
      exact ⟨item, List.mem_filter.mpr ⟨hitem, lists_iff.mpr hpath⟩, rfl⟩
  · have hnodup := nodup_map_fst_paths collector kind
    rw [List.pairwise_map]
    rw [List.Nodup, List.pairwise_map] at hnodup
    refine ((idxOf_le_of_pairwise_paths.and hnodup).sublist List.filter_sublist).imp_of_mem ?_
    rintro first second hfirst - ⟨hplace, hne⟩
    have hlisted := lists_iff.mp (List.mem_filter.mp hfirst).2
    exact lt_of_le_of_ne hplace fun hsame => hne ((List.idxOf_inj hlisted).mp hsame)

/-- The plan is complete, without repetitions and ordered: each common path of the network
and each path of the envelope is in it once; a common path is expected what the device lets
expect of it, also when the envelope lists it, and the user is prompted for any other; the
paths of the envelope come first, in the order they are first listed there, and the others
by expectation, by purpose and by path. -/
theorem paths_plan (collector : XpubCollector) (kind : DeviceKind) :
    (∀ path, ((collector.paths kind).map Prod.fst).count path =
      if path ∈ Ll.commonDerivationPaths (coinType collector.network) ∨
        path ∈ collector.derivPaths then 1 else 0) ∧
    (∀ path expect, (path, expect) ∈ collector.paths kind →
      expect = if path ∈ Ll.commonDerivationPaths (coinType collector.network) then
        commonDerivationPathExpect kind path else .promptUser) ∧
    ∃ others, (collector.paths kind).map Prod.fst = collector.derivPaths.eraseDups ++ others ∧
      others.Pairwise (AskedBefore kind collector.ordering) := by
  refine ⟨fun path => ?_, fun path expect hpath => ?_, ?_⟩
  · split
    · rename_i hmem
      exact List.count_eq_one_of_mem (nodup_map_fst_paths _ _) (mem_map_fst_paths_iff.mpr hmem)
    · rename_i hmem
      exact List.count_eq_zero.mpr fun hpath => hmem (mem_map_fst_paths_iff.mp hpath)
  · rw [mem_paths_iff, getElem?_pathMap] at hpath
    split at hpath
    · rename_i hcommon
      rw [if_pos hcommon]
      exact (Option.some.inj hpath).symm
    · rename_i hcommon
      rw [if_neg hcommon]
      split at hpath
      · exact (Option.some.inj hpath).symm
      · cases hpath
  · refine ⟨((collector.paths kind).filter fun item => !collector.lists item).map Prod.fst, ?_, ?_⟩
    · rw [← map_fst_filter_paths collector kind, ← List.map_append, filter_append_filter_paths]
    · rw [List.pairwise_map]
      refine (pairwise_paths.sublist List.filter_sublist).imp_of_mem ?_
      intro first second hfirst hsecond hbefore
      rw [List.mem_filter, Bool.not_eq_true', ← Bool.not_eq_true, lists_iff] at hfirst hsecond
      exact askedBefore_of_mem_paths hfirst.1 hsecond.1 hfirst.2 hsecond.2 hbefore

end XpubCollector

end Bip138
