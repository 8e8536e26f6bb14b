import SreAgent.Rca.EvidenceTools
import SreAgent.Rca.Partition
import SreAgent.Rca.Specialist

/-!
# What becomes of the tools that are approved

The resolver picks a tool by the pattern of its manifest entry, which is any pattern; a draft of
evidence wants the name of its tool to start with the endpoint. Between the two stands the call of the
tool, so a tool of another name is called and its result thrown away.
-/

namespace SreAgent.Rca
open Base Procedure EvidenceToolSession

/-- The capability that a specialist requires. -/
def SpecialistKind.queryCapability (kind : SpecialistKind) : String := kind.value ++ ".query"

/-- The query capability of a specialist starts with its name and a dot. -/
theorem SpecialistKind.query_within (kind : SpecialistKind) :
    (kind.value ++ ".").toList <+: kind.queryCapability.toList := by
  cases kind <;> decide

/-- A session over the tools that may collect. -/
structure Offers (config : SessionConfig) (kind : SpecialistKind) (tools : List AllowedTool) : Prop where
  kind : config.kind = kind
  scope : SafeScope config.request.scope
  tools : config.request.availableTools = tools

/-- The tools of a specialist can be used: a session approves them, evidence is made of any document
one of them answers, for any safe scope and any window, and the session takes that evidence. -/
structure Usable (checks : Checks) (kind : SpecialistKind) (tools : List AllowedTool) : Prop where
  approved : tools ≠ [] → ∀ config, Offers config kind tools →
    ∀ b cs, approvedTools checks config b cs = (.returned (some tools), b, cs)
  drafted : ∀ tool ∈ tools, ∀ request scope arguments raw structured, scope.safe = true ∧
    scope.provider = .GCP → Structured structured →
    ∃ draft, EvidenceDraft.validate checks.floatText kind request scope tool arguments raw structured =
      .ok draft
  taken : ∀ config, Offers config kind tools → ∀ tool ∈ tools, ∀ scope ∈ config.request.scope,
    ∀ arguments raw structured draft,
    EvidenceDraft.validate checks.floatText kind config.request scope tool arguments raw structured =
      .ok draft →
      ∀ b cs, validatedDrafts config [draft] tools b cs = (.returned [draft], b, cs)

/-- Evidence that is made of a tool names it, its endpoint and the scope. -/
theorem EvidenceDraft.provenance {floatText : FloatVal → String} {kind : SpecialistKind}
    {request : SpecialistRequest} {scope : CloudScope} {tool : AllowedTool} {arguments : JsonObject}
    {raw : List UInt8} {structured : PyJson} {draft : EvidenceDraft}
    (h : EvidenceDraft.validate floatText kind request scope tool arguments raw structured = .ok draft) :
    draft.endpointIdentity = kind ∧ draft.tool = tool.name ∧ draft.capability = tool.capability ∧
      draft.inputScope = scope ∧
      draft.normalizedScope = scope := by
  unfold EvidenceDraft.validate at h
  split at h
  · cases h
    exact ⟨rfl, rfl, rfl, rfl, rfl⟩
  · cases h

section Tools

variable {checks : Checks} {kind : SpecialistKind} {tool : AllowedTool}

theorem usable_nil : Usable checks kind [] := ⟨fun ne => absurd rfl ne, nofun, nofun⟩

/-- One tool of the endpoint, with a schema that can be checked, can be used exactly if its name
starts with the endpoint. -/
theorem usable_singleton (endpoint : tool.endpointIdentity = kind)
    (capability : tool.capability = kind.queryCapability)
    (checked : checks.checkSchema tool.inputSchema = true) : Usable checks kind [tool] ↔
      kind.value.toList <+: tool.name.toList := by
  constructor
  · intro usable
    obtain ⟨draft, made⟩ := usable.drafted tool List.mem_cons_self
      ⟨0, 0, "issue", none, 0, 0, [], by decide, Int.le_refl 0⟩ ⟨.GCP, "scope", true, by decide⟩ [] []
        (.obj [])
      ⟨rfl, rfl⟩ trivial
    exact (EvidenceDraft.of_validate made).1.2.2.2
  · intro named
    refine ⟨?_, ?_, ?_⟩
    · intro _ config offers b cs
      have nonempty : config.request.availableTools ≠ [] := by
        rw [offers.tools]
        exact List.cons_ne_nil tool []
      have unflawed : ¬ (tool.endpointIdentity ≠ config.kind ∨
          tool.capability ≠ config.kind.value ++ ".query" ∨ tool.name ∈ ([] : List String)) := by
        rw [offers.kind]
        rintro (other | other | seen)
        · exact other endpoint
        · exact other capability
        · cases seen
      unfold approvedTools
      rw [if_neg (not_not_intro offers.scope), if_neg nonempty, offers.tools, checkTools, if_neg unflawed,
        if_neg (by rw [checked]; exact Bool.noConfusion)]
      rfl
    · intro t ht request scope arguments raw structured safe wellFormed
      rw [List.mem_singleton.1 ht]
      have within : tool.Within kind := ⟨capability ▸ kind.query_within, named⟩
      exact ⟨_, dif_pos ⟨wellFormed, safe, within⟩⟩
    · intro config offers t ht scope hscope arguments raw structured draft made b cs
      obtain ⟨hendpoint, hname, hcapability, hinput, hnormalized⟩ := EvidenceDraft.provenance made
      have valid : ValidDraft config [tool] draft := by
        refine ⟨hendpoint.trans offers.kind.symm, ⟨t, ht, ?_⟩, scope, hscope, hinput, hnormalized⟩
        rw [hname, hcapability]
      have each : ∀ d ∈ [draft], ValidDraft config [tool] d := by
        intro d hd
        rw [List.mem_singleton.1 hd]
        exact valid
      unfold validatedDrafts
      rw [if_pos each]
      rfl

end Tools

/-! ## What is approved -/

section Resolved

variable {interpreter : JsonParse.Interpreter} {lib : Libraries} {kind : SpecialistKind}
  {manifest : List (ManifestEntry lib)} {discovered : List DiscoveredTool}

/-- The entry of a manifest for the capability of a specialist, where there is one only. -/
def NamedBy (manifest : List (ManifestEntry lib)) (kind : SpecialistKind)
    (entry : ManifestEntry lib) : Prop :=
  (manifest.filter fun entry => entry.capability = kind.queryCapability ∧
    entry.endpointIdentity = kind) = [entry]

/-- What a specialist is given of an endpoint. -/
def resolvedTools (manifest : List (ManifestEntry lib)) (discovered : List DiscoveredTool)
    (kind : SpecialistKind) : List AllowedTool :=
  resolve [kind.queryCapability] manifest discovered kind

/-- The one capability of a specialist resolves to one tool or to none. -/
theorem resolvedTools_cases (manifest : List (ManifestEntry lib)) (discovered : List DiscoveredTool)
    (kind : SpecialistKind) :
    (resolvedTools manifest discovered kind = [] ∧
      ∀ entry, NamedBy manifest kind entry →
        ∀ tool, (discovered.filter fun tool => entry.Matches tool) ≠ [tool]) ∨
    ∃ entry tool, NamedBy manifest kind entry ∧ (discovered.filter fun tool => entry.Matches tool) = [tool] ∧
      resolvedTools manifest discovered kind = [entry.allow tool kind.queryCapability] := by
  unfold resolvedTools resolve
  rw [List.mapM_cons, List.mapM_nil]
  unfold resolveOne
  split
  · next entry named =>
    split
    · next tool found => exact .inr ⟨entry, tool, named, found, rfl⟩
    · next others =>
      refine .inl ⟨rfl, fun entry' named' tool found => ?_⟩
      cases named.symm.trans named'
      exact others tool found
  · next others => exact .inl ⟨rfl, fun entry named => absurd named (others entry)⟩

/-- The endpoint of an entry named for a specialist. -/
theorem NamedBy.spec {entry : ManifestEntry lib} (named : NamedBy manifest kind entry) :
    entry.capability = kind.queryCapability ∧ entry.endpointIdentity = kind := by
  have kept := List.mem_filter.1 (named ▸ List.mem_singleton_self entry)
  exact of_decide_eq_true kept.2

/-- The tool of an entry can be used exactly if its name starts with the endpoint. -/
theorem usable_allow {entry : ManifestEntry lib} {tool : DiscoveredTool}
    (named : NamedBy manifest kind entry) :
    Usable ⟨lib.floatText, lib.checkSchema, interpreter⟩ kind [entry.allow tool kind.queryCapability] ↔
      kind.value.toList <+: tool.name.toList :=
  usable_singleton named.spec.2 rfl entry.schema_checked

/-- The tool a manifest approves has a name of the endpoint. -/
def NamedWithin (manifest : List (ManifestEntry lib)) (discovered : List DiscoveredTool)
    (kind : SpecialistKind) : Prop :=
  ∀ entry, NamedBy manifest kind entry → ∀ tool, (discovered.filter fun tool => entry.Matches tool) = [tool] →
    kind.value.toList <+: tool.name.toList

/-- The resolved tools can be used exactly if what is discovered is named within its kind. -/
theorem usable_iff_namedWithin :
    Usable ⟨lib.floatText, lib.checkSchema, interpreter⟩ kind (resolvedTools manifest discovered kind) ↔
      NamedWithin manifest discovered kind := by
  rcases resolvedTools_cases manifest discovered kind with ⟨eq, none⟩ | ⟨entry, tool, named, found, eq⟩
  · rw [eq]
    exact ⟨fun _ entry named tool found => absurd found (none entry named tool), fun _ => usable_nil⟩
  · rw [eq, usable_allow named]
    constructor
    · intro within entry' named' tool' found'
      cases named.symm.trans named'
      cases found.symm.trans found'
      exact within
    · intro within
      exact within entry named tool found

/-- A tool that an entry matches, whatever its name. -/
def ManifestEntry.listed (entry : ManifestEntry lib) (name : String) (name_ne : name ≠ "") : DiscoveredTool :=
  ⟨name, entry.inputSchema, [("readOnlyHint", .bool true)], name_ne⟩

/-- An entry whose pattern fits a name matches the tool listed under it. -/
theorem ManifestEntry.matches_listed {entry : ManifestEntry lib} {name : String} (name_ne : name ≠ "")
    (fits : lib.fullmatch entry.toolNamePattern name = true) : entry.Matches (entry.listed name name_ne) := by
  refine ⟨fits, ⟨_, rfl, rfl⟩, rfl, ?_, rfl⟩
  intro key hkey
  rw [List.mem_singleton.1 hkey]
  decide

/-- What an entry approves is named within the endpoint whatever is discovered, exactly if its pattern
matches no other name. -/
theorem namedWithin_always_iff : (∀ discovered, NamedWithin manifest discovered kind) ↔
    ∀ entry, NamedBy manifest kind entry → ∀ name, name ≠ "" →
      lib.fullmatch entry.toolNamePattern name = true →
      kind.value.toList <+: name.toList := by
  constructor
  · intro within entry named name name_ne fits
    refine within [entry.listed name name_ne] entry named (entry.listed name name_ne) ?_
    exact List.filter_cons_of_pos (decide_eq_true (entry.matches_listed name_ne fits))
  · intro within discovered entry named tool found
    have kept := List.mem_filter.1 (found ▸ List.mem_singleton_self tool)
    exact within entry named tool.name tool.name_ne (of_decide_eq_true kept.2).1

/-- The tools that are approved can be used exactly if they are named within the endpoint; whatever is
discovered, exactly if the pattern of the manifest matches such names only. -/
theorem approved_tools_usable_iff (manifest : List (ManifestEntry lib)) (kind : SpecialistKind) :
    (∀ discovered, Usable ⟨lib.floatText, lib.checkSchema, interpreter⟩ kind
      (resolvedTools manifest discovered kind) ↔
      NamedWithin manifest discovered kind) ∧
    ((∀ discovered, Usable ⟨lib.floatText, lib.checkSchema, interpreter⟩ kind
        (resolvedTools manifest discovered kind)) ↔
      ∀ entry, NamedBy manifest kind entry → ∀ name, name ≠ "" →
        lib.fullmatch entry.toolNamePattern name = true →
        kind.value.toList <+: name.toList) := by
  refine ⟨fun discovered => usable_iff_namedWithin, ?_⟩
  rw [← namedWithin_always_iff]
  exact forall_congr' fun discovered => usable_iff_namedWithin

end Resolved

theorem metricsQuery_text : CapabilityText (SpecialistKind.METRICS.value ++ ".query") := by decide +kernel

/-- The limits of CPython. -/
def plainInterpreter : JsonParse.Interpreter := ⟨4300, 1000, fun _ => .nan⟩

theorem queryMetrics_ne : "query_metrics" ≠ "" := by decide

/-- The manifest entry of an endpoint whose tool is called `query_metrics`. -/
def verbFirst : ManifestEntry plainNames :=
  queryEntry .METRICS "query_metrics" metricsQuery_text queryMetrics_ne

def verbFirstTool : DiscoveredTool := verbFirst.listed "query_metrics" queryMetrics_ne

/-- The tool is approved and no evidence is ever made of it. -/
theorem verb_first_unusable :
    resolvedTools [verbFirst]
    [verbFirstTool] .METRICS = [⟨"query_metrics", "metrics.query", .METRICS, .obj []⟩] ∧
    ¬ Usable ⟨plainNames.floatText, plainNames.checkSchema,
      plainInterpreter⟩ .METRICS (resolvedTools [verbFirst] [verbFirstTool] .METRICS) := by
  have named : NamedBy [verbFirst] .METRICS verbFirst := rfl
  have found : ([verbFirstTool].filter fun tool => verbFirst.Matches tool) = [verbFirstTool] :=
    List.filter_cons_of_pos (decide_eq_true (verbFirst.matches_listed (by decide) (by decide)))
  constructor
  · rcases resolvedTools_cases [verbFirst] [verbFirstTool] .METRICS with ⟨-, none⟩ |
      ⟨entry, tool, named', found', eq⟩
    · exact absurd found (none verbFirst named verbFirstTool)
    · cases named.symm.trans named'
      cases found.symm.trans found'
      exact eq
  · rw [usable_iff_namedWithin]
    intro within
    have begins := within verbFirst named verbFirstTool found
    revert begins
    decide

end SreAgent.Rca
