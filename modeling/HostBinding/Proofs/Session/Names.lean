import HostBinding.Proofs.FunctionBinding.Registration
import HostBinding.Proofs.Session.Assembly
import HostBinding.Proofs.Session.Origin

/-!
# The names that a module defines

The host language has one namespace for types and another one for functions and constants, and both cut across
the kinds of fragments: a proxy is a type and so is what an import brings in, and a host function stands beside
the shims that are declared for the host and the constant that holds the shim source. Stored fragments are told
apart by kind and name, so two names of a module can only be the same in one of a few ways, which are listed
here.
-/

namespace HostBinding

open Text

/-- The name that an import line brings into scope: the last segment of its path. -/
def importedName (line : String) : String :=
  String.ofList (line.toList.dropLast.reverse.takeWhile (· != ':')).reverse

/-- How a host function that is written above its shim's declaration begins. -/
def externMark : String :=
  "unsafe extern \"C\" \x7b\n    fn "

def externName? (text : String) : Option String :=
  if externMark.toList.isPrefixOf text.toList then
    some (String.ofList ((text.toList.drop externMark.length).takeWhile isWordChar))
  else none

namespace OutputModule

def proxyNames (m : OutputModule) : List String :=
  (m.ofKind .structBinding).map (·.name)

def importedNames (m : OutputModule) : List String :=
  (m.ofKind .importLine).map fun line => importedName line.name

/-- The host functions of a module. The head of an implementation holds a blank, a name does not. -/
def functionNames (m : OutputModule) : List String :=
  ((m.ofKind .functionBinding).map (·.name)).filter (!·.toList.contains ' ')

def externNames (m : OutputModule) : List String :=
  (m.ofKind .functionBinding).filterMap fun binding => externName? binding.text

def typeNames (m : OutputModule) : List String :=
  m.proxyNames ++ m.importedNames

def valueNames (m : OutputModule) : List String :=
  m.functionNames ++ m.externNames ++ [m.shimSourceIdent]

end OutputModule

/-! ### Reading names back -/

theorem externName?_append {name rest : String} (hname : Within isWordChar name)
    (hrest : StartsOutside isWordChar rest) : externName? (externMark ++ (name ++ rest)) = some name := by
  have hparts : (externMark ++ (name ++ rest)).toList = externMark.toList ++ (name ++ rest).toList :=
    String.toList_append
  have hprefix : externMark.toList.isPrefixOf (externMark ++ (name ++ rest)).toList = true := by
    rw [List.isPrefixOf_iff_prefix, hparts]
    exact List.prefix_append _ _
  rw [externName?, if_pos hprefix, hparts, ← String.length_toList, List.drop_left,
    takeWhile_toList_append hname hrest, String.ofList_toList]

theorem externName?_proxyText {plan : FunctionPlan} (h : Within isWordChar plan.shimName) (header : String) :
    externName? (plan.proxyText header) = some plan.shimName := by
  obtain ⟨rest, htext⟩ : ∃ rest, plan.proxyText header = externMark ++ (plan.shimName ++ ("(" ++ rest)) := by
    refine ⟨", ".intercalate plan.externParams ++ (")" ++ (plan.externResult ++ (";" ++ ("\n" ++ unlines
      (["\x7d"] ++ ([""] ++ (plan.proxyDocs header ++ ([plan.proxyHead] ++ (plan.proxyBody ++ ["\x7d"]))))))))), ?_⟩
    apply String.toList_injective
    simp [FunctionPlan.proxyText, FunctionPlan.externLines, unlines_cons, externMark, List.append_assoc]
  rw [htext]
  exact externName?_append h (StartsOutside.append ⟨'(', _, rfl, rfl⟩ rest)

theorem externName?_implText (plan : FunctionPlan) (operator : Operator) :
    externName? (plan.implText operator) = none := by
  rw [externName?, if_neg]
  rw [List.isPrefixOf_iff_prefix]
  rintro ⟨rest, hrest⟩
  have hfirst := congrArg List.head? hrest
  simp [FunctionPlan.implText, FunctionPlan.implHead, unlines_cons, externMark] at hfirst

/-! ### Names in an assembled module -/

theorem Fragment.toFragmentId_eq {fragment : Fragment} {kind : FragmentKind} (h : fragment.kind = kind) :
    fragment.toFragmentId = ⟨kind, fragment.name⟩ := by
  subst h
  rfl

namespace Session

variable {s : Session} {kind : FragmentKind} {fragment : Fragment}

theorem mem_ofKind_assemble (hkind : kind ≠ .opening) :
    fragment ∈ s.assemble.ofKind kind ↔ fragment.kind = kind ∧
      ∃ owner, s.fragments.get? fragment.toFragmentId = some ⟨owner, fragment.text⟩ := by
  rw [ofKind_assemble hkind, List.mem_filter, decide_eq_true_eq, and_comm, fragmentList, List.mem_map]
  refine and_congr_right fun _ => ⟨?_, ?_⟩
  · rintro ⟨entry, hentry, rfl⟩
    exact ⟨entry.2.owner, Table.get?_eq_some_iff.mpr hentry⟩
  · rintro ⟨owner, hstored⟩
    exact ⟨_, Table.get?_eq_some_iff.mp hstored, rfl⟩

theorem nodup_ofKind_assemble (hkind : kind ≠ .opening) :
    ((s.assemble.ofKind kind).map (·.name)).Nodup := by
  have hids : ((s.assemble.ofKind kind).map (·.toFragmentId)).Nodup := by
    rw [ofKind_assemble hkind]
    refine List.Nodup.sublist (List.filter_sublist.map _) ?_
    rw [fragmentList, List.map_map]
    exact s.fragments.nodup_keys
  rw [List.Nodup, List.pairwise_map] at hids ⊢
  refine hids.imp_of_mem fun {f g} hf hg hne hname => hne ?_
  rw [Fragment.toFragmentId_eq ((mem_ofKind_assemble hkind).mp hf).1,
    Fragment.toFragmentId_eq ((mem_ofKind_assemble hkind).mp hg).1, hname]

theorem shimSourceIdent_assemble (s : Session) : s.assemble.shimSourceIdent = s.config.shimSourceIdent := by
  have hincludes (headers : List String) (m : OutputModule) :
      (headers.foldl OutputModule.addInclude m).shimSourceIdent = m.shimSourceIdent := by
    induction headers generalizing m with
    | nil => rfl
    | cons header rest ih =>
      rw [List.foldl_cons, ih, OutputModule.addInclude]
      split <;> rfl
  have hfragments (fragments : List Fragment) (m : OutputModule) :
      (m.extend fragments).shimSourceIdent = m.shimSourceIdent := by
    induction fragments generalizing m with
    | nil => rfl
    | cons fragment rest ih =>
      refine (ih (m.push fragment)).trans ?_
      rw [OutputModule.push]
      split <;> rfl
  rw [assemble, hincludes, hfragments]
  rfl

/-! ### Types -/

end Session

/-- The lines that import something into a generated module. -/
def importable : List String :=
  FunctionBatch.storageImport :: erasedImport :: Operator.all.map FunctionPlan.traitImport

theorem importedName_traitImport (operator : Operator) :
    importedName (FunctionPlan.traitImport operator) = operator.hostTrait.name := by
  have hall : ∀ operator ∈ Operator.all,
      importedName (FunctionPlan.traitImport operator) = operator.hostTrait.name := by decide +kernel
  exact hall operator operator.mem_all

theorem eq_of_importedName_eq {line line' : String} (hline : line ∈ importable) (hline' : line' ∈ importable)
    (h : importedName line = importedName line') : line = line' := by
  have hstorage : importedName FunctionBatch.storageImport = "MaybeUninit" := by decide +kernel
  have herased : importedName erasedImport = "c_void" := by decide +kernel
  have hother : ∀ operator ∈ Operator.all,
      operator.hostTrait.name ≠ "MaybeUninit" ∧ operator.hostTrait.name ≠ "c_void" := by decide +kernel
  simp only [importable, List.mem_cons, List.mem_map] at hline hline'
  rcases hline with rfl | rfl | ⟨operator, hmem, rfl⟩ <;> rcases hline' with rfl | rfl | ⟨operator', hmem', rfl⟩ <;>
    simp only [hstorage, herased, importedName_traitImport] at h ⊢
  · exact absurd h (by decide)
  · exact absurd h.symm (hother operator' hmem').1
  · exact absurd h (by decide)
  · exact absurd h.symm (hother operator' hmem').2
  · exact absurd h (hother operator hmem).1
  · exact absurd h (hother operator hmem).2
  · rw [FunctionPlan.traitImport, FunctionPlan.traitImport, Operator.hostTrait_eq_of_name_eq h]

theorem StructBatch.importLines_subset_importable (body : StructBinding.ProxyBody) :
    StructBatch.importLines body ⊆ importable := by
  intro line hline
  have herased : line = erasedImport := by
    rw [StructBatch.importLines.eq_def] at hline
    split at hline
    · cases hline
    · split at hline
      · exact List.mem_singleton.mp hline
      · cases hline
  exact herased ▸ List.mem_cons_of_mem _ List.mem_cons_self

theorem FunctionBatch.importLines_subset_importable (plan : FunctionPlan) :
    FunctionBatch.importLines plan ⊆ importable := by
  intro line hline
  simp only [FunctionBatch.importLines, List.mem_append, List.mem_map] at hline
  rcases hline with (hstorage | herased) | ⟨operator, -, rfl⟩
  · split at hstorage
    · exact List.mem_singleton.mp hstorage ▸ List.mem_cons_self
    · cases hstorage
  · split at herased
    · exact List.mem_singleton.mp herased ▸ List.mem_cons_of_mem _ List.mem_cons_self
    · cases herased
  · exact List.mem_cons_of_mem _ (List.mem_cons_of_mem _ (List.mem_map_of_mem operator.mem_all))

/-- The key of an operator. -/
def DeclKey.OfOperator (key : DeclKey) : Prop :=
  ∃ (batch : FunctionBatch) (decl : FunctionDecl), batch.key decl = key ∧ decl.operator.isSome = true

namespace Call

variable {config : Config} {call : Call} {rendering : Rendering} {fragment : Fragment}

theorem mem_importable_of_build (hbuild : call.build = .ok rendering) (hmem : fragment ∈ rendering.fragments)
    (hkind : fragment.kind = .importLine) : fragment.name ∈ importable := by
  cases call with
  | struct batch state decl entry =>
    obtain ⟨⟨_, resolver⟩, hstruct, rfl⟩ := map_eq_ok_iff.mp hbuild
    obtain ⟨layout, body, -, -, rfl⟩ := StructBatch.build_eq_ok_iff.mp hstruct
    simp only [StructBatch.written, List.mem_append, List.mem_map, List.mem_cons, List.not_mem_nil, or_false]
      at hmem
    rcases hmem with ⟨line, hline, rfl⟩ | rfl | rfl
    · exact StructBatch.importLines_subset_importable body hline
    · cases hkind
    · cases hkind
  | function batch session decl =>
    obtain ⟨plan, -, rfl⟩ := FunctionBatch.build_eq_ok_iff.mp hbuild
    simp only [FunctionBatch.rendering, List.mem_append, List.mem_map, List.mem_singleton] at hmem
    rcases hmem with ((⟨line, hline, rfl⟩ | rfl) | ⟨operator, -, rfl⟩) | rfl
    · exact FunctionBatch.importLines_subset_importable plan hline
    · cases hkind
    · cases hkind
    · cases hkind

/-- A struct binding is named like the proxy that comes with it. -/
theorem exists_proxy_of_build {replaceable : Bool} (hbuild : call.build = .ok rendering)
    (hproper : rendering.Proper call.key replaceable) (hmem : fragment ∈ rendering.fragments)
    (hkind : fragment.kind = .structBinding) :
    ∃ proxy, rendering.proxy = some proxy ∧ proxy.hostName = fragment.name := by
  cases call with
  | function batch session decl => cases (hproper.structBinding fragment hmem hkind).1
  | struct batch state decl entry =>
    obtain ⟨⟨_, resolver⟩, hstruct, rfl⟩ := map_eq_ok_iff.mp hbuild
    obtain ⟨layout, body, -, -, rfl⟩ := StructBatch.build_eq_ok_iff.mp hstruct
    have howned := Rendering.mem_owned.mpr ⟨hmem, by rw [hkind]; decide⟩
    rcases StructBatch.binding_or_shim_of_mem_owned howned with ⟨hbinding, -⟩ | hshim
    · exact ⟨_, rfl, (congrArg FragmentId.name hbinding).symm⟩
    · cases hkind.symm.trans (congrArg FragmentId.kind hshim)

/-- A fragment is the host function that a call writes, with the declaration of its shim. -/
def WritesFunction (config : Config) (fragment : Fragment) : Call → Prop
  | struct _ _ _ _ => False
  | function batch _ decl => fragment.name = decl.proxyName (batch.isOverloaded decl) ∧
    externName? fragment.text = some (config.shimStart ++ decl.mangledName)

/-- A function binding is a host function or an implementation, which declares nothing. -/
theorem functionBinding_of_build (hcall : call.Occurs config) (hstart : Within isWordChar config.shimStart)
    (hbuild : call.build = .ok rendering) (hmem : fragment ∈ rendering.owned)
    (hkind : fragment.kind = .functionBinding) :
    (call.WritesFunction config fragment ∧ ' ' ∉ fragment.name.toList) ∨
    (' ' ∈ fragment.name.toList ∧ externName? fragment.text = none) := by
  have hconfig := hcall.traced.configured
  cases call with
  | struct batch state decl entry =>
    obtain ⟨⟨_, resolver⟩, hstruct, rfl⟩ := map_eq_ok_iff.mp hbuild
    obtain ⟨layout, body, -, -, rfl⟩ := StructBatch.build_eq_ok_iff.mp hstruct
    rcases StructBatch.binding_or_shim_of_mem_owned hmem with ⟨hbinding, -⟩ | hshim
    · cases hkind.symm.trans (congrArg FragmentId.kind hbinding)
    · cases hkind.symm.trans (congrArg FragmentId.kind hshim)
  | function batch session decl =>
    obtain ⟨plan, hplan, rfl⟩ := FunctionBatch.build_eq_ok_iff.mp hbuild
    obtain ⟨-, -, -, -, -, -, hshimName, hproxyName⟩ := FunctionDecl.plan_eq_ok_iff.mp hplan
    simp only [FunctionBatch.owned_rendering, List.cons_append, List.mem_cons, List.mem_append, List.mem_map,
      Option.mem_toList, List.not_mem_nil, or_false] at hmem
    rcases hmem with rfl | ⟨operator, -, rfl⟩ | rfl
    · have hshim : plan.shimName = config.shimStart ++ decl.mangledName := hconfig ▸ hshimName
      have hwithin : Within isWordChar plan.shimName := hshim ▸ hstart.append decl.within_mangledName
      refine .inl ⟨⟨hproxyName, ?_⟩, hproxyName ▸ decl.blank_notMem_proxyName _⟩
      rw [externName?_proxyText hwithin, hshim]
    · exact .inr ⟨plan.blank_mem_implHead operator, externName?_implText plan operator⟩
    · cases hkind

theorem shim_of_build {shim : String} (hcall : call.Occurs config) (hbuild : call.build = .ok rendering)
    (hwrites : call.WritesFunction config fragment) (hshim : externName? fragment.text = some shim) :
    ∃ declared ∈ rendering.owned, declared.toFragmentId = ⟨.shim, shim⟩ := by
  cases call with
  | struct => exact hwrites.elim
  | function batch session decl =>
    have hconfig : session.config = config := hcall.traced.configured
    obtain ⟨plan, hplan, rfl⟩ := FunctionBatch.build_eq_ok_iff.mp hbuild
    obtain ⟨-, -, -, -, -, -, hshimName, -⟩ := FunctionDecl.plan_eq_ok_iff.mp hplan
    have hname : plan.shimName = shim := by
      rw [hshimName, hconfig]
      exact Option.some.inj (hwrites.2.symm.trans hshim)
    rw [FunctionBatch.owned_rendering]
    exact ⟨_, List.mem_append_right _ (List.mem_singleton_self _), by rw [hname]⟩

theorem ofOperator_key (h : call.replaceable = true) : call.key.OfOperator := by
  cases call with
  | struct => cases h
  | function batch session decl => exact ⟨batch, decl, rfl, h⟩

end Call

namespace Session

variable {config : Config} {s s' : Session} {kind : FragmentKind} {fragment : Fragment} {name : String}
  {stored : Stored} {rendering : Rendering} {key : DeclKey} {replaceable : Bool}

/-- What the names of stored imports and struct bindings can be. -/
structure NamesTypes (s : Session) : Prop where
  imports : ∀ name stored, s.fragments.get? ⟨.importLine, name⟩ = some stored → name ∈ importable
  proxies : ∀ name stored, s.fragments.get? ⟨.structBinding, name⟩ = some stored →
    ∃ native proxy, s.proxy? native = some proxy ∧ proxy.hostName = name

theorem namesTypes_of_empty (hfragments : s.fragments = ∅) : s.NamesTypes where
  imports _ _ h := by simp [hfragments, Table.get?_empty] at h
  proxies _ _ h := by simp [hfragments, Table.get?_empty] at h

theorem keptByCalls_namesTypes : KeptByCalls config NamesTypes := by
  intro call rendering s' _ hs hbuild hproper hcommit
  have hgrows : ∀ name proxy, call.session.proxy? name = some proxy → s'.proxy? name = some proxy :=
    fun name proxy => proxy?_of_commit hcommit
  obtain ⟨rfl, -, -⟩ := commit_eq_ok_iff.mp hcommit
  constructor
  case imports =>
    intro name stored hstored
    rcases get?_storeFragments_cases hstored with hold | ⟨fragment, hmem, hid, -⟩
    · exact hs.imports name stored hold
    · have hname : fragment.name = name := congrArg FragmentId.name hid
      exact hname ▸ Call.mem_importable_of_build hbuild hmem (congrArg FragmentId.kind hid)
  case proxies =>
    intro name stored hstored
    rcases get?_storeFragments_cases hstored with hold | ⟨fragment, hmem, hid, -⟩
    · obtain ⟨native, proxy, hproxy, hname⟩ := hs.proxies name stored hold
      exact ⟨native, proxy, hgrows native proxy hproxy, hname⟩
    · obtain ⟨proxy, hproxy, hname⟩ := Call.exists_proxy_of_build hbuild hproper hmem (congrArg FragmentId.kind hid)
      refine ⟨proxy.nativeName, proxy, ?_, hname.trans (congrArg FragmentId.name hid)⟩
      rw [proxy?, get?_proxies_accept, hproxy]
      simp

theorem Reachable.namesTypes (hs : Reachable config s) : s.NamesTypes :=
  keptByCalls_namesTypes.reachable (namesTypes_of_empty rfl) (fun _ _ => namesTypes_of_empty rfl) hs

/-- The struct bindings of an assembled module are those of the registered proxies. -/
theorem Reachable.mem_proxyNames_iff (hs : Reachable config s) :
    name ∈ s.assemble.proxyNames ↔ ∃ native proxy, s.proxy? native = some proxy ∧ proxy.hostName = name := by
  rw [OutputModule.proxyNames, List.mem_map]
  constructor
  · rintro ⟨fragment, hmem, rfl⟩
    obtain ⟨hkind, owner, hstored⟩ := (mem_ofKind_assemble (by decide)).mp hmem
    exact hs.namesTypes.proxies fragment.name _ (Fragment.toFragmentId_eq hkind ▸ hstored)
  · rintro ⟨native, proxy, hproxy, rfl⟩
    obtain ⟨owner, text, -, -, hstored⟩ := hs.coherent.anchored native proxy hproxy
    refine ⟨⟨⟨.structBinding, proxy.hostName⟩, text⟩, ?_, rfl⟩
    exact (mem_ofKind_assemble (by decide)).mpr ⟨rfl, owner, hstored⟩

theorem Reachable.mem_importable (hs : Reachable config s) (hmem : fragment ∈ s.assemble.ofKind .importLine) :
    fragment.name ∈ importable := by
  obtain ⟨hkind, owner, hstored⟩ := (mem_ofKind_assemble (by decide)).mp hmem
  exact hs.namesTypes.imports fragment.name _ (Fragment.toFragmentId_eq hkind ▸ hstored)

theorem Reachable.importedNames_nodup (hs : Reachable config s) : s.assemble.importedNames.Nodup := by
  have hlines : ((s.assemble.ofKind .importLine).map (·.name)).Nodup := nodup_ofKind_assemble (by decide)
  rw [List.Nodup, List.pairwise_map] at hlines
  rw [OutputModule.importedNames, List.Nodup, List.pairwise_map]
  refine hlines.imp_of_mem fun {line line'} hline hline' hne heq => hne ?_
  exact eq_of_importedName_eq (hs.mem_importable hline) (hs.mem_importable hline') heq

/-! ### Functions -/

/-- The shim of a stored host function is stored too. It belongs to the same declaration, or an operator has taken
it over. -/
def Declares (config : Config) (s : Session) : Prop :=
  ∀ name stored shim, s.fragments.get? ⟨.functionBinding, name⟩ = some stored →
    externName? stored.text = some shim → ∃ held, s.fragments.get? ⟨.shim, shim⟩ = some held ∧
      (held.owner ≠ stored.owner → config.operatorOverride = .lastWins ∧ held.owner.OfOperator)

theorem declares_of_empty (hfragments : s.fragments = ∅) : s.Declares config := by
  intro name stored shim h
  simp [hfragments, Table.get?_empty] at h

theorem keptByCalls_declares (hstart : Within isWordChar config.shimStart) :
    KeptByCalls config (Declares config) := by
  intro call rendering s' hoccurs hs hbuild hproper hcommit name stored shim hstored hshim
  have hconfig := hoccurs.traced.configured
  obtain ⟨rfl, hfree, -⟩ := commit_eq_ok_iff.mp hcommit
  have hown (fragment : Fragment) (howned : fragment ∈ rendering.owned) :
      (call.session.accept call.key rendering).fragments.get? fragment.toFragmentId =
        some ⟨call.key, fragment.text⟩ := by
    obtain ⟨hmem, hkind⟩ := Rendering.mem_owned.mp howned
    exact get?_storeFragments_owned hmem hkind hproper.distinct
  rcases get?_storeFragments_cases hstored with hold | ⟨fragment, hmem, hid, rfl⟩
  · obtain ⟨held, hheld, htaken⟩ := hs name stored shim hold hshim
    by_cases hwritten : ∃ fragment ∈ rendering.owned, fragment.toFragmentId = ⟨.shim, shim⟩
    · obtain ⟨fragment, howned, hid⟩ := hwritten
      refine ⟨_, hid ▸ hown fragment howned, fun hother => ?_⟩
      by_cases hreplaces : call.replaceable = true ∧ call.session.config.operatorOverride = .lastWins
      · exact ⟨hconfig ▸ hreplaces.2, call.ofOperator_key hreplaces.1⟩
      · have howner := fragmentCollision?_eq_none.mp (hfree hreplaces) fragment howned held (hid ▸ hheld)
        exact howner ▸ htaken (howner ▸ hother)
    · refine ⟨held, ?_, htaken⟩
      exact get?_fragments_of_commit hcommit hheld fun fragment howned hid => hwritten ⟨fragment, howned, hid⟩
  · have hkind : fragment.kind = .functionBinding := congrArg FragmentId.kind hid
    have howned := Rendering.mem_owned.mpr ⟨hmem, by rw [hkind]; decide⟩
    obtain ⟨hwrites, -⟩ := (Call.functionBinding_of_build hoccurs hstart hbuild howned hkind).resolve_right
      fun hnone => by simp [hshim] at hnone
    obtain ⟨declared, hdeclared, hid⟩ := Call.shim_of_build hoccurs hbuild hwrites hshim
    exact ⟨⟨call.key, declared.text⟩, hid ▸ hown declared hdeclared, fun hother => absurd rfl hother⟩

theorem Reachable.declares (hs : Reachable config s) (hstart : Within isWordChar config.shimStart) :
    s.Declares config :=
  (keptByCalls_declares hstart).reachable (declares_of_empty rfl) (fun _ _ => declares_of_empty rfl) hs

/-- A stored host function, with a declaration that it was rendered for. -/
structure Hosts (config : Config) (s : Session) (name text : String) (batch : FunctionBatch) (decl : FunctionDecl) :
    Prop where
  stored : s.fragments.get? ⟨.functionBinding, name⟩ = some ⟨batch.key decl, text⟩
  wrote : ∃ session,
    (Call.function batch session decl).Wrote config s ⟨.functionBinding, name⟩ ⟨batch.key decl, text⟩
  name : name = decl.proxyName (batch.isOverloaded decl)
  shim : externName? text = some (config.shimStart ++ decl.mangledName)

theorem Reachable.hosts_or (hs : Reachable config s) (hstart : Within isWordChar config.shimStart)
    (hmem : fragment ∈ s.assemble.ofKind .functionBinding) :
    ((∃ batch decl, s.Hosts config fragment.name fragment.text batch decl) ∧ ' ' ∉ fragment.name.toList) ∨
    (' ' ∈ fragment.name.toList ∧ externName? fragment.text = none) := by
  obtain ⟨hkind, owner, hstored⟩ := (mem_ofKind_assemble (by decide)).mp hmem
  rw [Fragment.toFragmentId_eq hkind] at hstored
  obtain ⟨origin, hwrote⟩ := hs.sourced _ _ hstored (show FragmentKind.functionBinding ≠ .importLine by decide)
  obtain ⟨rendering, hbuild, howned⟩ := hwrote.built
  refine (Call.functionBinding_of_build hwrote.occurs hstart hbuild howned rfl).imp_left ?_
  rintro ⟨hwrites, hblank⟩
  refine ⟨?_, hblank⟩
  cases origin with
  | struct => exact hwrites.elim
  | function batch session decl =>
    have howner : batch.key decl = owner := hwrote.key
    subst howner
    exact ⟨batch, decl, hstored, ⟨session, hwrote⟩, hwrites.1, hwrites.2⟩

theorem Hosts.mem_assemble {text : String} {batch : FunctionBatch} {decl : FunctionDecl}
    (h : s.Hosts config name text batch decl) :
    { kind := .functionBinding, name := name, text := text } ∈ s.assemble.ofKind .functionBinding :=
  (mem_ofKind_assemble (by decide)).mpr ⟨rfl, _, h.stored⟩

theorem Reachable.mem_functionNames_iff (hs : Reachable config s) (hstart : Within isWordChar config.shimStart) :
    name ∈ s.assemble.functionNames ↔ ∃ text batch decl, s.Hosts config name text batch decl := by
  rw [OutputModule.functionNames, List.mem_filter, List.mem_map, List.contains_eq_mem, Bool.not_eq_true',
    decide_eq_false_iff_not]
  constructor
  · rintro ⟨⟨fragment, hmem, rfl⟩, hblank⟩
    obtain ⟨⟨batch, decl, hhosts⟩, -⟩ := (hs.hosts_or hstart hmem).resolve_right fun h => hblank h.1
    exact ⟨fragment.text, batch, decl, hhosts⟩
  · rintro ⟨text, batch, decl, hhosts⟩
    exact ⟨⟨_, hhosts.mem_assemble, rfl⟩, hhosts.name ▸ decl.blank_notMem_proxyName _⟩

theorem Reachable.mem_externNames_iff (hs : Reachable config s) (hstart : Within isWordChar config.shimStart) :
    name ∈ s.assemble.externNames ↔ ∃ proxyName text batch decl,
      s.Hosts config proxyName text batch decl ∧ name = config.shimStart ++ decl.mangledName := by
  rw [OutputModule.externNames, List.mem_filterMap]
  constructor
  · rintro ⟨fragment, hmem, hshim⟩
    obtain ⟨⟨batch, decl, hhosts⟩, -⟩ := (hs.hosts_or hstart hmem).resolve_right fun h => by simp [h.2] at hshim
    exact ⟨fragment.name, fragment.text, batch, decl, hhosts, Option.some.inj (hshim.symm.trans hhosts.shim)⟩
  · rintro ⟨proxyName, text, batch, decl, hhosts, rfl⟩
    exact ⟨_, hhosts.mem_assemble, hhosts.shim⟩

theorem Hosts.name_eq_of_key_eq {name' text text' : String} {batch batch' : FunctionBatch}
    {decl decl' : FunctionDecl} (h : s.Hosts config name text batch decl)
    (h' : s.Hosts config name' text' batch' decl') (hkey : batch.key decl = batch'.key decl')
    (hshim : externName? text = externName? text') : name = name' := by
  obtain ⟨-, hname, -, -, -, hoperator, hoverloaded⟩ := FunctionBatch.of_key_eq hkey
  have hmangled : decl.mangledName = decl'.mangledName := by
    rw [h.shim, h'.shim, Option.some.injEq] at hshim
    exact (String.append_right_inj _).mp hshim
  have hstem : decl.stem = decl'.stem := by
    rw [FunctionDecl.stem, FunctionDecl.stem, hoperator, hname]
  rw [h.name, h'.name, FunctionDecl.proxyName, FunctionDecl.proxyName, hoperator, hoverloaded, hmangled, hstem]

theorem Hosts.plain_of_name_ne {text : String} {batch : FunctionBatch} {decl : FunctionDecl}
    (h : s.Hosts config name text batch decl) (hne : name ≠ decl.mangledName) :
    decl.operator = none ∧ batch.isOverloaded decl = false := by
  rw [h.name, FunctionDecl.proxyName] at hne
  split at hne
  · exact absurd rfl hne
  · rename_i hplain
    simpa using hplain

/-- A plain function is stored, but its shim belongs to an operator. -/
def PlainTakenOver (config : Config) (s : Session) : Prop :=
  config.operatorOverride = .lastWins ∧ ∃ name text batch decl held, s.Hosts config name text batch decl ∧
    decl.operator = none ∧ batch.isOverloaded decl = false ∧
    s.fragments.get? ⟨.shim, config.shimStart ++ decl.mangledName⟩ = some held ∧ held.owner.OfOperator

/-- Two host functions that declare one shim do not both belong to its owner, and not both are named by its
symbol. -/
theorem Reachable.plainTakenOver_of_extern_eq {name' text text' : String} {batch batch' : FunctionBatch}
    {decl decl' : FunctionDecl} (hs : Reachable config s) (hstart : Within isWordChar config.shimStart)
    (h : s.Hosts config name text batch decl) (h' : s.Hosts config name' text' batch' decl')
    (hne : name ≠ name') (hshim : externName? text = externName? text') : s.PlainTakenOver config := by
  have hmangled : decl.mangledName = decl'.mangledName := by
    have hsame := hshim
    rw [h.shim, h'.shim, Option.some.injEq] at hsame
    exact (String.append_right_inj _).mp hsame
  obtain ⟨held, hheld, htaken⟩ := hs.declares hstart name _ _ h.stored h.shim
  obtain ⟨held', hheld', htaken'⟩ := hs.declares hstart name' _ _ h'.stored h'.shim
  obtain rfl : held = held' := by
    rw [← hmangled, hheld] at hheld'
    exact Option.some.inj hheld'
  have hoperator : config.operatorOverride = .lastWins ∧ held.owner.OfOperator := by
    by_contra hkept
    have howner : held.owner = batch.key decl := by_contra fun hother => hkept (htaken hother)
    have howner' : held.owner = batch'.key decl' := by_contra fun hother => hkept (htaken' hother)
    exact hne (h.name_eq_of_key_eq h' (howner.symm.trans howner') hshim)
  refine ⟨hoperator.1, ?_⟩
  by_cases hname : name = decl.mangledName
  · obtain ⟨hplain, hunique⟩ := h'.plain_of_name_ne (by rwa [← hmangled, ← hname, ne_comm])
    exact ⟨name', text', batch', decl', held, h', hplain, hunique, hheld', hoperator.2⟩
  · obtain ⟨hplain, hunique⟩ := h.plain_of_name_ne hname
    exact ⟨name, text, batch, decl, held, h, hplain, hunique, hheld, hoperator.2⟩

theorem Reachable.externNames_nodup (hs : Reachable config s) (hstart : Within isWordChar config.shimStart)
    (hkept : ¬s.PlainTakenOver config) : s.assemble.externNames.Nodup := by
  have hnames : ((s.assemble.ofKind .functionBinding).map (·.name)).Nodup := nodup_ofKind_assemble (by decide)
  rw [List.Nodup, List.pairwise_map] at hnames
  rw [OutputModule.externNames, List.Nodup, List.pairwise_filterMap]
  refine hnames.imp_of_mem fun {binding binding'} hmem hmem' hne shim hshim shim' hshim' hsame => hkept ?_
  obtain ⟨⟨batch, decl, hhosts⟩, -⟩ := (hs.hosts_or hstart hmem).resolve_right fun h => by simp [h.2] at hshim
  obtain ⟨⟨batch', decl', hhosts'⟩, -⟩ := (hs.hosts_or hstart hmem').resolve_right fun h => by simp [h.2] at hshim'
  exact hs.plainTakenOver_of_extern_eq hstart hhosts hhosts' hne (by rw [hshim, hshim', hsame])

/-! ### All names -/

/-- The first fragment of a rendering that belongs to another declaration stops it, unless it may be taken over. -/
theorem commit_eq_nameCollision {fragment : Fragment} (howned : fragment ∈ rendering.owned)
    (hstored : s.fragments.get? fragment.toFragmentId = some stored) (hother : stored.owner ≠ key)
    (hkeeps : ¬(replaceable = true ∧ s.config.operatorOverride = .lastWins)) :
    ∃ first ∈ rendering.owned, ∃ held, s.fragments.get? first.toFragmentId = some held ∧ held.owner ≠ key ∧
      s.commit key rendering replaceable = .error (.nameCollision first.name held.owner.name key.name) := by
  have hmay : (replaceable && decide (s.config.operatorOverride = .lastWins)) = false := by
    simpa using hkeeps
  cases hcollision : s.fragmentCollision? key rendering with
  | none => exact absurd (fragmentCollision?_eq_none.mp hcollision fragment howned stored hstored) hother
  | some cause =>
    obtain ⟨first, hfirst, hcause⟩ := List.exists_of_findSome?_eq_some hcollision
    split at hcause
    · cases hcause
    · rename_i hkind
      obtain ⟨held, hheld, hcause⟩ := Option.bind_eq_some_iff.mp hcause
      split at hcause
      · cases hcause
      · rename_i hforeign
        refine ⟨first, Rendering.mem_owned.mpr ⟨hfirst, hkind⟩, held, hheld, hforeign, ?_⟩
        simp [commit, hmay, hcollision, ← Option.some.inj hcause]

/-- How far the names of a module are apart. -/
structure NamesApart (config : Config) (s : Session) : Prop where
  proxies : s.assemble.proxyNames.Nodup
  imports : s.assemble.importedNames.Nodup
  importable : s.assemble.importedNames ⊆ importable.map importedName
  functions : s.assemble.functionNames.Nodup
  externs : ¬s.PlainTakenOver config → s.assemble.externNames.Nodup
  types : s.assemble.typeNames.Nodup ↔
    ∀ native proxy, s.proxy? native = some proxy → proxy.hostName ∉ s.assemble.importedNames
  values : s.assemble.valueNames.Nodup ↔ s.assemble.externNames.Nodup ∧
    (∀ name text batch decl name' text' batch' decl', s.Hosts config name text batch decl →
      s.Hosts config name' text' batch' decl' → name ≠ config.shimStart ++ decl'.mangledName) ∧
    ∀ name text batch decl, s.Hosts config name text batch decl →
      config.shimSourceIdent ≠ name ∧ config.shimSourceIdent ≠ config.shimStart ++ decl.mangledName

theorem Reachable.namesApart (hs : Reachable config s) (hstart : Within isWordChar config.shimStart) :
    s.NamesApart config := by
  have hproxies : s.assemble.proxyNames.Nodup := nodup_ofKind_assemble (by decide)
  have hbindings : ((s.assemble.ofKind .functionBinding).map (·.name)).Nodup := nodup_ofKind_assemble (by decide)
  have hfunctions : s.assemble.functionNames.Nodup := hbindings.filter _
  have himports := hs.importedNames_nodup
  constructor
  case proxies => exact hproxies
  case imports => exact himports
  case importable =>
    intro name hname
    obtain ⟨line, hmem, rfl⟩ := List.mem_map.mp hname
    exact List.mem_map_of_mem (hs.mem_importable hmem)
  case functions => exact hfunctions
  case externs => exact hs.externNames_nodup hstart
  case types =>
    rw [OutputModule.typeNames, List.nodup_append']
    simp only [hproxies, himports, true_and, List.Disjoint, hs.mem_proxyNames_iff]
    constructor
    · exact fun hapart native proxy hproxy => hapart ⟨native, proxy, hproxy, rfl⟩
    · rintro hapart _ ⟨native, proxy, hproxy, rfl⟩
      exact hapart native proxy hproxy
  case values =>
    have hconfig : s.config = config := hs.traced.configured
    rw [OutputModule.valueNames, List.nodup_append', List.nodup_append', shimSourceIdent_assemble, hconfig]
    simp only [hfunctions, true_and, List.Disjoint, List.nodup_singleton, List.mem_append, List.mem_singleton,
      hs.mem_functionNames_iff hstart, hs.mem_externNames_iff hstart, and_assoc]
    refine and_congr_right fun _ => and_congr ⟨?_, ?_⟩ ⟨?_, ?_⟩
    · rintro hapart name text batch decl name' text' batch' decl' hhosts hhosts' hname
      exact hapart ⟨text, batch, decl, hhosts⟩ ⟨name', text', batch', decl', hhosts', hname⟩
    · rintro hapart name ⟨text, batch, decl, hhosts⟩ ⟨name', text', batch', decl', hhosts', hname⟩
      exact hapart name text batch decl name' text' batch' decl' hhosts hhosts' hname
    · intro hapart name text batch decl hhosts
      exact ⟨fun hname => hapart (.inl ⟨text, batch, decl, hname ▸ hhosts⟩) rfl,
        fun hname => hapart (.inr ⟨name, text, batch, decl, hhosts, hname⟩) rfl⟩
    · rintro hapart _ (⟨text, batch, decl, hhosts⟩ | ⟨name, text, batch, decl, hhosts, hname⟩) rfl
      · exact (hapart _ text batch decl hhosts).1 rfl
      · exact (hapart name text batch decl hhosts).2 hname

/-- **How far the names of a module are apart.** In every reachable session the proxies have different names, and so
have the imports, the host functions and, unless an operator has taken over the shim of a plain function, the shims
that are declared. Two types have one name only when a proxy is called like an import, and two values only when a
host function is called like a shim or one of both like the shim source. A declaration with a fragment of another
one is refused, whatever the kind of the fragment. -/
theorem names_apart {config : Config} (hident : isIdentifier config.shimStart.toList = true) :
    (∀ s, Reachable config s → s.NamesApart config) ∧
    ∀ (call : Call) (rendering : Rendering) (fragment : Fragment) (stored : Stored), call.Occurs config →
      call.build = .ok rendering → fragment ∈ rendering.owned →
      call.session.fragments.get? fragment.toFragmentId = some stored → stored.owner ≠ call.key →
      ¬(call.replaceable = true ∧ config.operatorOverride = .lastWins) →
      ∃ first ∈ rendering.owned, ∃ held, call.session.fragments.get? first.toFragmentId = some held ∧
        held.owner ≠ call.key ∧ call.session.commit call.key rendering call.replaceable =
          .error (.nameCollision first.name held.owner.name call.key.name) := by
  have hstart : Within isWordChar config.shimStart := by
    rw [isIdentifier, Bool.and_eq_true, List.all_eq_true] at hident
    exact hident.2
  refine ⟨fun s hs => hs.namesApart hstart, ?_⟩
  intro call rendering fragment stored hoccurs _ howned hstored hother hkeeps
  exact commit_eq_nameCollision howned hstored hother (by rwa [hoccurs.traced.configured])

/-! ### A module whose names are apart, and two modules with one name twice -/

namespace Sample

def shadowing : FunctionBatch where
  functions := [{ name := "f", returnType := .void, params := [⟨some "a", .ofPrimitive (.integral .i32)⟩] },
    { name := "__bind_shim_f_i32", returnType := .void, params := [] }]
  header := "h.h"

def sharing : FunctionBatch where
  functions := [FunctionDecl.Sample.pair, FunctionDecl.Sample.single]
  header := "h.h"

def refused : Call :=
  .function sharing (sharing.stateAfter { config := { operatorOverride := .lastWins } } [FunctionDecl.Sample.pair])
    FunctionDecl.Sample.single

def refusedRendering : Rendering :=
  refused.build.toOption.getD default

def refusedText : String :=
  (refusedRendering.owned.getLast?.map (·.text)).getD ""

def addends : StructBatch where
  structs := [{ name := "Add", fields := [⟨"x", .ofPrimitive (.floating .f32)⟩] }]
  mapping := Table.ofList [("Add", { header := "add.h" })]

def sumOfAddends : FunctionBatch where
  functions := [{ name := "operator+", returnType := .named "Add",
                  params := [⟨some "a", .named "Add"⟩, ⟨some "b", .named "Add"⟩], operator := some (.binary .add) }]
  header := "add.h"

end Sample

theorem names_apart_summed :
    isIdentifier (Config.shimStart { operatorOverride := .lastWins }).toList = true ∧
    Reachable { operatorOverride := .lastWins } Sample.summed ∧
    Sample.summed.assemble.proxyNames = ["Vec2"] ∧ Sample.summed.assemble.importedNames = ["MaybeUninit", "Add"] ∧
    Sample.summed.NamesApart { operatorOverride := .lastWins } ∧
    ∃ first ∈ Sample.refusedRendering.owned, ∃ held : Stored, Sample.refused.session.commit Sample.refused.key
      Sample.refusedRendering false = .error (.nameCollision first.name held.owner.name "f_i32") := by
  have hident : isIdentifier (Config.shimStart { operatorOverride := .lastWins }).toList = true := by decide
  have hs : Reachable { operatorOverride := .lastWins } Sample.summed := .functions _ (.structs _ .new)
  have hrefused := (names_apart hident).2 Sample.refused Sample.refusedRendering
    { kind := .shim, name := "__bind_shim_f_i32_i32", text := Sample.refusedText }
    (Sample.refused.session.fragments.get? ⟨.shim, "__bind_shim_f_i32_i32"⟩ |>.getD default)
    (.function _ [FunctionDecl.Sample.pair] _ [] .new rfl) (eq_ok_of_isSome_toOption (by decide +kernel))
    (by decide +kernel) (by decide +kernel) (by decide +kernel) (by decide)
  obtain ⟨first, hfirst, held, -, -, herror⟩ := hrefused
  exact ⟨hident, hs, by decide +kernel, by decide +kernel, (names_apart hident).1 _ hs, first, hfirst, held, herror⟩

/-- A function has the name of a shim, and a proxy that of a trait which is imported. -/
theorem names_clash :
    isIdentifier (Config.shimStart {}).toList = true ∧
    (Sample.shadowing.render {}).2.toOption.isSome = true ∧ Reachable {} (Sample.shadowing.render {}).1 ∧
    ¬(Sample.shadowing.render {}).1.assemble.valueNames.Nodup ∧
    (Sample.sumOfAddends.render (Sample.addends.render {}).1).2.toOption.isSome = true ∧
    Reachable {} (Sample.sumOfAddends.render (Sample.addends.render {}).1).1 ∧
    ¬(Sample.sumOfAddends.render (Sample.addends.render {}).1).1.assemble.typeNames.Nodup := by
  have hfunction : "__bind_shim_f_i32" ∈ (Sample.shadowing.render {}).1.assemble.functionNames := by decide +kernel
  have hextern : "__bind_shim_f_i32" ∈ (Sample.shadowing.render {}).1.assemble.externNames := by decide +kernel
  refine ⟨by decide, by decide +kernel, .functions _ .new, fun hvalues => ?_, by decide +kernel,
    .functions _ (.structs _ .new), by decide +kernel⟩
  rw [OutputModule.valueNames, List.nodup_append', List.nodup_append'] at hvalues
  exact hvalues.1.2.2 hfunction hextern

end Session

end HostBinding
