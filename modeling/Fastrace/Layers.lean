import Fastrace.Lexical
import Fastrace.Places

/-!
# Layers and lines

What a token, a submission and a line of a stack mean.  A line is what its layer says (`LayerOk`) when its token leads
to the span of the layer, its register names the innermost open local span, every open local span has a handle to its
entry, and its entries are those of the layer; `Placed` says it of all stacks.  A line is put on top, changed there and
taken off (`Placed.push`, `Placed.setTop`, `Placed.pop`), and there are changes that the layer does not see
(`Unseen`).
-/

namespace Fastrace

/-! ### Sites, and what submissions ask for -/

def SpanInner.site (s : SpanInner) : Site where
  id := s.rawSpan.id
  traces := (retainSampled s.collectToken).map fun i => (i.collectId, i.traceId)
  records := (retainSampled s.collectToken).map fun i => (i.collectId, ⟨i.traceId, s.rawSpan.id, i.parentId⟩)

def RawSpan.entry (raw : RawSpan) : LocalEntry where
  parent := if raw.parentId = default then none else some raw.parentId
  id := raw.id

/-- The local spans of a queue. -/
def entriesOf (raws : List RawSpan) : List LocalEntry := (raws.filter (·.rawKind = .span)).map RawSpan.entry

def SubmitSpans.asked (cmd : SubmitSpans) : List Asked :=
  cmd.collectToken.flatMap fun item => (itemOf cmd.spans item).keys.map fun k => (item.collectId, k)

/-- The token leads to the site. -/
structure LeadsTo (token : CollectToken) (site : Site) : Prop where
  traces : (retainSampled token).map (fun i => (i.collectId, i.traceId)) = site.traces
  parents : ∀ item ∈ token, item.parentId = site.id

theorem leadsTo_issue (s : SpanInner) : LeadsTo s.issueCollectToken s.site where
  traces := by
    simp [SpanInner.issueCollectToken, issueToken, retainSampled, SpanInner.site, List.filter_map, Function.comp_def]
  parents item hitem := by
    obtain ⟨item', -, rfl⟩ := List.mem_map.1 hitem
    rfl

/-- A span under several sites, with the items of their tokens. -/
theorem site_join {s : SpanInner} {x : SpanId} {tokens : List CollectToken} {sites : List Site}
    (hid : s.rawSpan.id = x) (htoken : s.collectToken = tokens.flatten) (h : List.Forall₂ LeadsTo tokens sites) :
    s.site = Site.join sites x := by
  have hparts : (retainSampled s.collectToken).map (fun i => (i.collectId, i.traceId)) = sites.flatMap Site.traces ∧
      (retainSampled s.collectToken).map (fun i => (i.collectId, (⟨i.traceId, x, i.parentId⟩ : RecordKey))) =
        sites.flatMap fun site => site.child x := by
    rw [htoken]
    clear htoken
    induction h with
    | nil => exact ⟨rfl, rfl⟩
    | @cons token site tokens sites hlead _ ih =>
      have happend : retainSampled (token :: tokens).flatten = retainSampled token ++ retainSampled tokens.flatten :=
        List.filter_append ..
      have hrecords : (retainSampled token).map (fun i => (i.collectId, (⟨i.traceId, x, i.parentId⟩ : RecordKey))) =
          site.child x := by
        rw [Site.child, ← hlead.traces, List.map_map]
        refine List.map_congr_left fun item hitem => ?_
        rw [hlead.parents item (List.mem_of_mem_filter hitem)]
        rfl
      rw [happend, List.map_append, List.map_append, ih.1, ih.2, hlead.traces, hrecords]
      exact ⟨rfl, rfl⟩
  subst hid
  rw [SpanInner.site, hparts.1, hparts.2]
  rfl

private theorem asked_submission (spans : SpanSet) (token : CollectToken) :
    (submission spans token).flatMap SubmitSpans.asked =
      (retainSampled token).flatMap fun item => (itemOf spans item).keys.map fun k => (item.collectId, k) := by
  unfold submission
  split
  · rename_i hempty
    rw [List.isEmpty_iff.1 hempty]
    rfl
  · exact List.append_nil _

/-- What the drop of a span asks for. -/
theorem asked_span {s : SpanInner} {raw : RawSpan} (hid : raw.id = s.rawSpan.id) (hkind : raw.rawKind = .span) :
    (submission (.span raw) s.collectToken).flatMap SubmitSpans.asked = s.site.records := by
  have hkeys : ∀ item, (itemOf (.span raw) item).keys = [⟨item.traceId, s.rawSpan.id, item.parentId⟩] := by
    intro item
    simp [Item.keys, itemOf, SpanSet.raws, Item.parentOf, hkind, hid]
  simp only [asked_submission, hkeys, List.map_cons, List.map_nil]
  exact List.map_eq_flatMap.symm

/-- An attachment asks for no record. -/
theorem asked_attachment {raw : RawSpan} (hkind : raw.rawKind ≠ .span) (token : CollectToken) :
    (submission (.span raw) token).flatMap SubmitSpans.asked = [] := by
  rw [asked_submission]
  simp [Item.keys, itemOf, SpanSet.raws, hkind]

/-- What a set of local spans under a site asks for. -/
theorem asked_local {spans : SpanSet} (hparent : ∀ item raw, (itemOf spans item).parentOf raw =
      if raw.parentId = default then item.parentId else raw.parentId) {token : CollectToken} {site : Site}
    (h : LeadsTo token site) :
    (submission spans token).flatMap SubmitSpans.asked = site.under (entriesOf spans.raws) := by
  rw [asked_submission, Site.under, ← h.traces, List.flatMap_map]
  refine List.flatMap_congr fun item hitem => ?_
  have hsite : item.parentId = site.id := h.parents item (List.mem_of_mem_filter hitem)
  simp only [Item.keys, entriesOf, List.map_map]
  refine List.map_congr_left fun raw _ => ?_
  simp only [Function.comp_apply, hparent, hsite, RawSpan.entry]
  by_cases hroot : raw.parentId = default
  · simp [hroot, itemOf]
  · simp [hroot, itemOf]

/-! ### Layers and lines -/

variable {T : Type}

/-- Every open local span has a handle to its entry, whose parent is the next one. -/
def LocalsOk (localSpans : Var → Option (T × LocalSpan)) (t : T) (line : SpanLine) : List (Var × SpanId) → Prop
  | [] => True
  | (v, x) :: locals => (x ≠ default ∧ ∃ i raw, localSpans v = some (t, ⟨some ⟨line.epoch, ⟨i⟩⟩⟩) ∧
      line.spanQueue.spanQueue[i]? = some raw ∧ raw.id = x ∧ raw.rawKind = .span ∧
        raw.parentId = (locals.head?.map Prod.snd).getD default) ∧
      LocalsOk localSpans t line locals

/-- The entries of the line stay, up to their ends and properties. -/
structure KeepsEntries (line line' : SpanLine) : Prop where
  epoch : line'.epoch = line.epoch
  entries : ∀ (i : Nat) (raw : RawSpan), line.spanQueue.spanQueue[i]? = some raw →
    ∃ raw' : RawSpan, line'.spanQueue.spanQueue[i]? = some raw' ∧ SpanQueue.SameEntry raw raw'

theorem LocalsOk.congr {localSpans localSpans' : Var → Option (T × LocalSpan)} {t : T} {line line' : SpanLine}
    {locals : List (Var × SpanId)} (h : LocalsOk localSpans t line locals) (hkeeps : KeepsEntries line line')
    (hsame : ∀ v ∈ locals.map Prod.fst, localSpans' v = localSpans v) : LocalsOk localSpans' t line' locals := by
  induction locals with
  | nil => trivial
  | cons p locals ih =>
    obtain ⟨v, x⟩ := p
    obtain ⟨⟨hx, i, raw, hv, hraw, hid, hkind, hparent⟩, hrest⟩ := h
    rw [List.map_cons, List.forall_mem_cons] at hsame
    obtain ⟨raw', hraw', hentry⟩ := hkeeps.entries i raw hraw
    refine ⟨⟨hx, i, raw', ?_, hraw', hentry.id_eq.trans hid, hentry.kind_eq.trans hkind,
      hentry.parentId_eq.trans hparent⟩, ih hrest hsame.2⟩
    rw [hsame.1, hv, hkeeps.epoch]

private theorem LocalsOk.owned {localSpans : Var → Option (T × LocalSpan)} {t : T} {line : SpanLine}
    {locals : List (Var × SpanId)} (h : LocalsOk localSpans t line locals) {v : Var} (hv : v ∈ locals.map Prod.fst) :
    ∃ span, localSpans v = some (t, span) := by
  induction locals with
  | nil => cases hv
  | cons p locals ih =>
    obtain ⟨⟨-, i, raw, howned, -⟩, hrest⟩ := h
    rcases List.mem_cons.1 hv with rfl | hv
    · exact ⟨_, howned⟩
    · exact ih hrest hv

/-- The entry of an open local span. -/
theorem LocalsOk.entry {localSpans : Var → Option (T × LocalSpan)} {t : T} {line : SpanLine}
    {locals : List (Var × SpanId)} (h : LocalsOk localSpans t line locals) {v : Var} {x : SpanId}
    (hmem : (v, x) ∈ locals) : ∃ i raw, localSpans v = some (t, ⟨some ⟨line.epoch, ⟨i⟩⟩⟩) ∧
      line.spanQueue.spanQueue[i]? = some raw ∧ raw.id = x ∧ raw.rawKind = .span := by
  induction locals with
  | nil => cases hmem
  | cons p locals ih =>
    obtain ⟨⟨-, i, raw, hv, hraw, hid, hkind, -⟩, hrest⟩ := h
    rcases List.mem_cons.1 hmem with heq | hmem
    · cases heq
      exact ⟨i, raw, hv, hraw, hid, hkind⟩
    · exact ih hrest hmem

/-- The line is as the layer says. -/
structure LayerOk (w : World T) (t : T) (layer : Layer) (line : SpanLine) : Prop where
  token : Option.Rel LeadsTo line.collectToken layer.site
  handle : w.handles layer.scope = some (t, some ⟨line.epoch⟩)
  locals : LocalsOk w.localSpans t line layer.locals
  register : line.spanQueue.nextParentId = layer.current
  entries : entriesOf line.spanQueue.spanQueue = layer.entries

private theorem LayerOk.congr {w w' : World T} {t : T} {layer : Layer} {line : SpanLine} (h : LayerOk w t layer line)
    (hhandle : w'.handles layer.scope = w.handles layer.scope)
    (hlocals : ∀ v ∈ layer.locals.map Prod.fst, w'.localSpans v = w.localSpans v) : LayerOk w' t layer line :=
  { h with
    handle := hhandle.trans h.handle
    locals := h.locals.congr ⟨rfl, fun _ raw hraw => ⟨raw, hraw, ⟨rfl, rfl, rfl⟩⟩⟩ hlocals }

/-- No open local span has the zero id. -/
theorem LayerOk.current_ne {w : World T} {t : T} {layer : Layer} {line : SpanLine} (h : LayerOk w t layer line) :
    layer.current ≠ some default := by
  have hlocals := h.locals
  unfold Layer.current
  cases hl : layer.locals with
  | nil => simp
  | cons p locals =>
    rw [hl] at hlocals
    intro heq
    exact hlocals.1.1 (Option.some.inj heq)

private theorem layersOk_congr {w w' : World T} {t : T} {layers : List Layer} {lines : List SpanLine}
    (h : List.Forall₂ (LayerOk w t) layers lines)
    (hhandles : ∀ layer ∈ layers, w'.handles layer.scope = w.handles layer.scope)
    (hlocals : ∀ layer ∈ layers, ∀ v ∈ layer.locals.map Prod.fst, w'.localSpans v = w.localSpans v) :
    List.Forall₂ (LayerOk w' t) layers lines := by
  induction h with
  | nil => exact .nil
  | cons hline _ ih =>
    rw [List.forall_mem_cons] at hhandles hlocals
    exact .cons (hline.congr hhandles.1 hlocals.1) (ih hhandles.2 hlocals.2)

/-- The stacks hold the lines of the layers. -/
structure Placed (w : World T) (layers : T → List Layer) : Prop where
  lines : ∀ t, List.Forall₂ (LayerOk w t) (layers t) (w.spanStack t).spanLines
  capacity : ∀ t, (w.spanStack t).capacity = defaultSpanStackSize
  scopes : ∀ t scope handle, w.handles scope = some (t, some handle) → scope ∈ (layers t).map Layer.scope
  once : ∀ t, ((layers t).map Layer.scope).Nodup
  localsOnce : ∀ t, ((layers t).flatMap fun layer => layer.locals.map Prod.fst).Nodup

namespace Placed

variable {w w' : World T} {layers : T → List Layer} {t : T} {layer layer' : Layer} {line line' : SpanLine}
  {rest : List Layer} {lines : List SpanLine}

private theorem line_of_mem (h : Placed w layers) (hlayer : layer ∈ layers t) : ∃ line, LayerOk w t layer line := by
  have hall := h.lines t
  generalize (w.spanStack t).spanLines = ls at hall
  generalize layers t = las at hlayer hall
  induction hall with
  | nil => cases hlayer
  | @cons a b as bs hab _ ih =>
    rcases List.mem_cons.1 hlayer with rfl | hlayer
    · exact ⟨b, hab⟩
    · exact ih hlayer

/-- The thread of a layer is that of its scope. -/
theorem owner (h : Placed w layers) (hlayer : layer ∈ layers t) :
    ∃ handle, w.handles layer.scope = some (t, handle) := by
  obtain ⟨line, hline⟩ := h.line_of_mem hlayer
  exact ⟨_, hline.handle⟩

theorem localOwner (h : Placed w layers) (hlayer : layer ∈ layers t) {v : Var} (hv : v ∈ layer.locals.map Prod.fst) :
    ∃ span, w.localSpans v = some (t, span) := by
  obtain ⟨line, hline⟩ := h.line_of_mem hlayer
  exact hline.locals.owned hv

/-- The layers of the thread and its lines, innermost first. -/
theorem top (h : Placed w layers) (hlayers : layers t = layer :: rest) : ∃ line lines,
    (w.spanStack t).spanLines = line :: lines ∧ LayerOk w t layer line ∧ List.Forall₂ (LayerOk w t) rest lines := by
  have hall := h.lines t
  rw [hlayers] at hall
  generalize hls : (w.spanStack t).spanLines = ls at hall
  cases hall with
  | cons hline hlines => exact ⟨_, _, rfl, hline, hlines⟩

theorem top_of_line (h : Placed w layers) (hlines : (w.spanStack t).spanLines = line :: lines) : ∃ layer rest,
    layers t = layer :: rest ∧ LayerOk w t layer line ∧ List.Forall₂ (LayerOk w t) rest lines := by
  have hall := h.lines t
  rw [hlines] at hall
  generalize hlas : layers t = las at hall
  cases hall with
  | cons hline hlines => exact ⟨_, _, rfl, hline, hlines⟩

theorem lines_nil (h : Placed w layers) (hlayers : layers t = []) : (w.spanStack t).spanLines = [] := by
  have hall := h.lines t
  rw [hlayers] at hall
  generalize (w.spanStack t).spanLines = ls at hall
  cases hall
  rfl

theorem congr (h : Placed w layers) (hhandles : w'.handles = w.handles) (hlocals : w'.localSpans = w.localSpans)
    (hstack : w'.spanStack = w.spanStack) : Placed w' layers where
  lines u := by
    rw [hstack]
    exact layersOk_congr (h.lines u) (fun _ _ => by rw [hhandles]) fun _ _ _ _ => by rw [hlocals]
  capacity u := by rw [hstack]; exact h.capacity u
  scopes u scope handle hscope := h.scopes u scope handle (hhandles ▸ hscope)
  once := h.once
  localsOnce := h.localsOnce

variable [DecidableEq T]

/-- The layers of one thread change; what the other layers are about does not. -/
private theorem change (h : Placed w layers) {las : List Layer} {stack : LocalSpanStack}
    (hstack : w'.spanStack = Function.update w.spanStack t stack) (hcapacity : stack.capacity = defaultSpanStackSize)
    (hlines : List.Forall₂ (LayerOk w' t) las stack.spanLines)
    (hhandles : ∀ u, u ≠ t → ∀ lay ∈ layers u, w'.handles lay.scope = w.handles lay.scope)
    (hlocals : ∀ u, u ≠ t → ∀ lay ∈ layers u, ∀ v ∈ lay.locals.map Prod.fst, w'.localSpans v = w.localSpans v)
    (hscopes : ∀ u scope handle, w'.handles scope = some (u, some handle) →
      (u = t → scope ∈ las.map Layer.scope) ∧ (u ≠ t → w.handles scope = some (u, some handle)))
    (honce : (las.map Layer.scope).Nodup)
    (hlocalsOnce : (las.flatMap fun layer => layer.locals.map Prod.fst).Nodup) :
    Placed w' (Function.update layers t las) := by
  refine ⟨fun u => ?_, fun u => ?_, fun u scope handle hhandle => ?_, fun u => ?_, fun u => ?_⟩
  all_goals
    by_cases hu : u = t
  · subst hu
    rw [hstack, Function.update_self, Function.update_self]
    exact hlines
  · rw [hstack, Function.update_of_ne hu, Function.update_of_ne hu]
    exact layersOk_congr (h.lines u) (hhandles u hu) (hlocals u hu)
  · subst hu
    rw [hstack, Function.update_self]
    exact hcapacity
  · rw [hstack, Function.update_of_ne hu]
    exact h.capacity u
  · subst hu
    rw [Function.update_self]
    exact (hscopes u scope handle hhandle).1 rfl
  · rw [Function.update_of_ne hu]
    exact h.scopes u scope handle ((hscopes u scope handle hhandle).2 hu)
  · subst hu
    rw [Function.update_self]
    exact honce
  · rw [Function.update_of_ne hu]
    exact h.once u
  · subst hu
    rw [Function.update_self]
    exact hlocalsOnce
  · rw [Function.update_of_ne hu]
    exact h.localsOnce u

/-- The top layer and the top line change. -/
theorem setTop (h : Placed w layers) (hlayers : layers t = layer :: rest)
    (hlines : (w.spanStack t).spanLines = line :: lines)
    (hstack : w'.spanStack = Function.update w.spanStack t { w.spanStack t with spanLines := line' :: lines })
    (hhandles : w'.handles = w.handles) (hscope : layer'.scope = layer.scope) (hok : LayerOk w' t layer' line')
    (hother : ∀ u, ∀ lay ∈ layers u, (u = t → lay ∈ rest) → ∀ v ∈ lay.locals.map Prod.fst,
      w'.localSpans v = w.localSpans v)
    (honce : (layer'.locals.map Prod.fst ++ rest.flatMap fun layer => layer.locals.map Prod.fst).Nodup) :
    Placed w' (Function.update layers t (layer' :: rest)) := by
  obtain ⟨line₀, lines₀, hlines₀, -, hrest⟩ := h.top hlayers
  rw [hlines] at hlines₀
  cases hlines₀
  have hscopes : (layer' :: rest).map Layer.scope = (layers t).map Layer.scope := by
    rw [hlayers, List.map_cons, List.map_cons, hscope]
  refine h.change hstack (h.capacity t) (.cons hok ?_) (fun _ _ _ _ => by rw [hhandles])
    (fun u hu lay hlay => hother u lay hlay fun heq => absurd heq hu) (fun u scope handle hhandle => ?_)
    (hscopes ▸ h.once t) honce
  · exact layersOk_congr hrest (fun _ _ => by rw [hhandles])
      fun lay hlay => hother t lay (by rw [hlayers]; exact List.mem_cons_of_mem _ hlay) fun _ => hlay
  · rw [hhandles] at hhandle
    exact ⟨fun hu => hscopes ▸ hu ▸ h.scopes u scope handle hhandle, fun _ => hhandle⟩

/-- A line is put on top. -/
theorem push {scope : Scope} {stack : LocalSpanStack} (h : Placed w layers) (hfree : w.handles scope = none)
    (hlines : stack.spanLines = line :: (w.spanStack t).spanLines) (hcapacity : stack.capacity = defaultSpanStackSize)
    (hstack : w'.spanStack = Function.update w.spanStack t stack)
    (hhandles : w'.handles = Function.update w.handles scope (some (t, some ⟨line.epoch⟩)))
    (hlocals : w'.localSpans = w.localSpans) (hscope : layer.scope = scope) (hempty : layer.locals = [])
    (hok : LayerOk w' t layer line) : Placed w' (Function.update layers t (layer :: layers t)) := by
  have hne : ∀ u, ∀ lay ∈ layers u, lay.scope ≠ scope := by
    intro u lay hlay heq
    obtain ⟨handle, hhandle⟩ := h.owner hlay
    rw [heq, hfree] at hhandle
    cases hhandle
  have hsame : ∀ u, ∀ lay ∈ layers u, w'.handles lay.scope = w.handles lay.scope := fun u lay hlay => by
    rw [hhandles, Function.update_of_ne (hne u lay hlay)]
  refine h.change hstack hcapacity ?_ (fun u _ => hsame u) (fun _ _ _ _ _ _ => by rw [hlocals])
    (fun u scope' handle hhandle => ?_) ?_ ?_
  · rw [hlines]
    exact .cons hok (layersOk_congr (h.lines t) (hsame t) fun _ _ _ _ => by rw [hlocals])
  · rw [hhandles] at hhandle
    by_cases heq : scope' = scope
    · subst heq
      rw [Function.update_self] at hhandle
      cases hhandle
      exact ⟨fun _ => by rw [List.map_cons, hscope]; exact List.mem_cons_self .., fun hu => absurd rfl hu⟩
    · rw [Function.update_of_ne heq] at hhandle
      exact ⟨fun hu => List.mem_cons_of_mem _ (hu ▸ h.scopes u scope' handle hhandle), fun _ => hhandle⟩
  · rw [List.map_cons, List.nodup_cons, hscope]
    refine ⟨fun hmem => ?_, h.once t⟩
    obtain ⟨lay, hlay, heq⟩ := List.mem_map.1 hmem
    exact hne t lay hlay heq
  · rw [List.flatMap_cons, hempty]
    exact h.localsOnce t

/-- The top line is taken off. -/
theorem pop (h : Placed w layers) (hlayers : layers t = layer :: rest)
    (hlines : (w.spanStack t).spanLines = line :: lines)
    (hstack : w'.spanStack = Function.update w.spanStack t { w.spanStack t with spanLines := lines })
    (hhandles : w'.handles = Function.update w.handles layer.scope none) (hlocals : w'.localSpans = w.localSpans) :
    Placed w' (Function.update layers t rest) := by
  obtain ⟨line₀, lines₀, hlines₀, hline, hrest⟩ := h.top hlayers
  rw [hlines] at hlines₀
  cases hlines₀
  have honce := h.once t
  rw [hlayers, List.map_cons, List.nodup_cons] at honce
  have hlocalsOnce := h.localsOnce t
  rw [hlayers, List.flatMap_cons] at hlocalsOnce
  have hother : ∀ lay ∈ rest, lay.scope ≠ layer.scope := fun lay hlay heq => honce.1 (heq ▸ List.mem_map_of_mem hlay)
  refine h.change hstack (h.capacity t) ?_ (fun u hu lay hlay => ?_) (fun _ _ _ _ _ _ => by rw [hlocals])
    (fun u scope handle hhandle => ?_) honce.2 hlocalsOnce.of_append_right
  · exact layersOk_congr hrest (fun lay hlay => by rw [hhandles, Function.update_of_ne (hother lay hlay)])
      fun _ _ _ _ => by rw [hlocals]
  · rw [hhandles, Function.update_of_ne]
    intro heq
    obtain ⟨handle, hhandle⟩ := h.owner hlay
    rw [heq, hline.handle] at hhandle
    cases hhandle
    exact hu rfl
  · rw [hhandles] at hhandle
    have hne : scope ≠ layer.scope := by
      intro heq
      rw [heq, Function.update_self] at hhandle
      cases hhandle
    rw [Function.update_of_ne hne] at hhandle
    refine ⟨fun hu => ?_, fun _ => hhandle⟩
    have hmem := h.scopes u scope handle hhandle
    rw [hu, hlayers, List.map_cons] at hmem
    exact (List.mem_cons.1 hmem).resolve_left hne

omit [DecidableEq T] in
/-- A scope without a line comes or goes. -/
theorem setIdle {scope : Scope} {value : Option (T × Option SpanLineHandle)} (h : Placed w layers)
    (hvalue : ∀ u handle, value ≠ some (u, some handle)) (hnone : ∀ u, scope ∉ (layers u).map Layer.scope)
    (hhandles : w'.handles = Function.update w.handles scope value) (hlocals : w'.localSpans = w.localSpans)
    (hstack : w'.spanStack = w.spanStack) : Placed w' layers where
  lines u := by
    rw [hstack]
    refine layersOk_congr (h.lines u) (fun lay hlay => ?_) fun _ _ _ _ => by rw [hlocals]
    rw [hhandles, Function.update_of_ne]
    exact fun heq => hnone u (heq ▸ List.mem_map_of_mem hlay)
  capacity u := by rw [hstack]; exact h.capacity u
  scopes u scope' handle hhandle := by
    rw [hhandles] at hhandle
    by_cases heq : scope' = scope
    · subst heq
      rw [Function.update_self] at hhandle
      exact absurd hhandle (hvalue u handle)
    · rw [Function.update_of_ne heq] at hhandle
      exact h.scopes u scope' handle hhandle
  once := h.once
  localsOnce := h.localsOnce

end Placed

/-! ### What a layer does not see -/

/-- The line has another entry that is no local span, or the end or the properties of an entry have changed. -/
structure Unseen (line line' : SpanLine) : Prop where
  keeps : KeepsEntries line line'
  token : line'.collectToken = line.collectToken
  register : line'.spanQueue.nextParentId = line.spanQueue.nextParentId
  entries : entriesOf line'.spanQueue.spanQueue = entriesOf line.spanQueue.spanQueue

theorem entriesOf_append (raws raws' : List RawSpan) :
    entriesOf (raws ++ raws') = entriesOf raws ++ entriesOf raws' := by
  simp [entriesOf]

theorem entriesOf_set {raws : List RawSpan} {i : Nat} {raw raw' : RawSpan} (hraw : raws[i]? = some raw)
    (hsame : SpanQueue.SameEntry raw raw') : entriesOf (raws.set i raw') = entriesOf raws := by
  have hpairs : ∀ raws : List RawSpan, entriesOf raws =
      ((raws.map fun raw => (raw.rawKind, raw.entry)).filter (·.1 = .span)).map Prod.snd := by
    intro raws
    simp [entriesOf, List.filter_map, Function.comp_def]
  rw [hpairs, hpairs, map_set_same hraw]
  rw [hsame.kind_eq, RawSpan.entry, hsame.id_eq, hsame.parentId_eq]
  rfl

theorem getElem?_set_same {raws : List RawSpan} {i : Nat} {raw raw' : RawSpan} (hraw : raws[i]? = some raw)
    (hsame : SpanQueue.SameEntry raw raw') (j : Nat) (raw₀ : RawSpan) (hraw₀ : raws[j]? = some raw₀) :
    ∃ raw₁, (raws.set i raw')[j]? = some raw₁ ∧ SpanQueue.SameEntry raw₀ raw₁ := by
  by_cases hij : i = j
  · subst hij
    rw [hraw] at hraw₀
    cases hraw₀
    exact ⟨raw', List.getElem?_set_self (List.getElem?_eq_some_iff.1 hraw).1, hsame⟩
  · exact ⟨raw₀, (List.getElem?_set_ne hij).trans hraw₀, ⟨rfl, rfl, rfl⟩⟩

private theorem Unseen.push {line : SpanLine} {raw : RawSpan} (hkind : raw.rawKind ≠ .span) :
    Unseen line { line with spanQueue := { line.spanQueue with spanQueue := line.spanQueue.spanQueue ++ [raw] } } where
  keeps := ⟨rfl, fun i raw₀ hraw₀ =>
    ⟨raw₀, (List.getElem?_append_left (List.getElem?_eq_some_iff.1 hraw₀).1).trans hraw₀, ⟨rfl, rfl, rfl⟩⟩⟩
  token := rfl
  register := rfl
  entries := by
    change entriesOf (line.spanQueue.spanQueue ++ [raw]) = _
    rw [entriesOf_append]
    simp [entriesOf, hkind]

private theorem Unseen.set {line : SpanLine} {i : Nat} {raw raw' : RawSpan}
    (hraw : line.spanQueue.spanQueue[i]? = some raw)
    (hsame : SpanQueue.SameEntry raw raw') :
    Unseen line { line with spanQueue := { line.spanQueue with
      spanQueue := line.spanQueue.spanQueue.set i raw' } } where
  keeps := ⟨rfl, getElem?_set_same hraw hsame⟩
  token := rfl
  register := rfl
  entries := entriesOf_set hraw hsame

/-- The stack is the same but for what no layer sees. -/
def UnseenTop (stack stack' : LocalSpanStack) : Prop :=
  stack' = stack ∨ ∃ line lines line', stack.spanLines = line :: lines ∧ Unseen line line' ∧
    stack' = { stack with spanLines := line' :: lines }

theorem unseen_addEvent (stack : LocalSpanStack) (id : SpanId) (now : Instant) (event : Event) :
    UnseenTop stack (stack.addEvent id now event) := by
  unfold LocalSpanStack.addEvent
  split
  · exact Or.inl rfl
  · rename_i line lines hlines
    unfold SpanLine.addEvent
    split
    · left; rw [← hlines]
    · rcases SpanQueue.addEvent_cases line.spanQueue id now event with ⟨-, h⟩ | ⟨-, raw, hraw, h⟩
      · left; rw [h, ← hlines]
      · right; rw [h]
        exact ⟨line, lines, _, hlines, .push (by rw [hraw.kind_eq]; decide), rfl⟩

theorem unseen_addProperties (stack : LocalSpanStack) (id : SpanId) (properties : Properties) :
    UnseenTop stack (stack.addProperties id properties) := by
  unfold LocalSpanStack.addProperties
  split
  · exact Or.inl rfl
  · rename_i line lines hlines
    unfold SpanLine.addProperties
    split
    · left; rw [← hlines]
    · rcases SpanQueue.addProperties_cases line.spanQueue id properties with ⟨-, h⟩ | ⟨-, raw, hraw, h⟩
      · left; rw [h, ← hlines]
      · right; rw [h]
        exact ⟨line, lines, _, hlines, .push (by rw [hraw.kind_eq]; decide), rfl⟩

theorem unseen_withProperties {span : LocalSpan} {stack stack' : LocalSpanStack} {properties : Properties}
    (h : span.withProperties stack properties = some stack') : UnseenTop stack stack' := by
  unfold LocalSpan.withProperties at h
  split at h
  · cases h; exact Or.inl rfl
  · unfold LocalSpanStack.withProperties at h
    split at h
    · cases h; exact Or.inl rfl
    · rename_i line lines hlines
      obtain ⟨line', hline, rfl⟩ := Option.map_eq_some_iff.1 h
      unfold SpanLine.withProperties at hline
      split at hline
      · cases hline
        left; rw [← hlines]
      · split at hline
        · obtain ⟨q, hq, rfl⟩ := Option.map_eq_some_iff.1 hline
          obtain ⟨raw, raw', hraw, hsame, rfl⟩ := SpanQueue.withProperties_cases hq
          exact Or.inr ⟨line, lines, _, hlines, .set hraw hsame, rfl⟩
        · cases hline
          left; rw [← hlines]

end Fastrace
