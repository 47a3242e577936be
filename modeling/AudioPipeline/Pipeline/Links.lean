import AudioPipeline.Event.Basic
import Mathlib.Algebra.Order.Ring.Int

/-!
# The lists of a pipeline (`audio_pipeline.c`)

`Links` is what registering, linking, breaking up and relinking work on: the two lists of a
pipeline, and the part of the process they share with every other pipeline (`Heap`): the elements,
the ring buffers, the allocator, and the two `static` variables in which the linking helpers keep
the current ring buffer between calls.

Handles are numbers.  A ring buffer keeps the number it was created with, and numbers are not used
again; `rb_destroy` notes the number in `destroyed`.  The outcomes of the coming allocations stand
in `memory`; when the list is used up, allocations succeed.  The event interface of an element has
the handle of the element.
-/

namespace AudioPipeline

/-- A `char *` that is not `NULL`. -/
abbrev CString := List Char

/-- `strcasecmp(s1, s2) == 0`. -/
def strcasecmp (s1 s2 : CString) : Bool := s1.map Char.toLower = s2.map Char.toLower

/-- `read_type` with the union `in`, or `write_type` with the union `out`; callbacks are told
apart. -/
inductive Io
  /-- `IO_TYPE_RB` -/
  | rb (handle : Option ℕ)
  /-- `IO_TYPE_CB` -/
  | cb (fn : ℕ)
  deriving DecidableEq, Repr

/-- `audio_element_get_input_ringbuf`, `audio_element_get_output_ringbuf`. -/
def Io.ringbuf : Io → Option ℕ
  | .rb handle => handle
  | .cb _ => none

/-- `audio_element_set_input_ringbuf`, `audio_element_set_output_ringbuf`. -/
def Io.setRingbuf : Io → Option ℕ → Io
  | _, some h => .rb (some h)
  | .rb _, none => .rb none
  | .cb fn, none => .cb fn

/-- `struct audio_element`, as far as linking reads or writes it. -/
structure LinkEl where
  tag : Option CString
  outRbSize : ℤ
  input : Io
  output : Io
  state : AelState
  deriving DecidableEq, Repr

/-- `audio_element_item_t`. -/
structure ElementItem where
  el : ℕ
  linked : Bool
  keptCtx : Bool
  deriving DecidableEq, Repr

/-- `ringbuf_item_t`. -/
structure RingbufItem where
  rb : ℕ
  hostEl : Option ℕ
  linked : Bool
  keptCtx : Bool
  deriving DecidableEq, Repr

/-- `el_list`: no element is registered twice. -/
@[ext]
structure ElList where
  items : List ElementItem
  nodup : (items.map ElementItem.el).Nodup

namespace ElList

/-- A new list. -/
def empty : ElList := ⟨[], List.nodup_nil⟩

/-- Writes the flags of the item of an element. -/
def setFlags (l : ElList) (el : ℕ) (linked keptCtx : Bool → Bool) : ElList where
  items := l.items.map fun item =>
    if item.el = el then
      { item with linked := linked item.linked, keptCtx := keptCtx item.keptCtx }
    else item
  nodup := by
    rw [List.map_map]
    have hel : (ElementItem.el ∘ fun item => if item.el = el then
        { item with linked := linked item.linked, keptCtx := keptCtx item.keptCtx } else item) =
        ElementItem.el := by
      funext item
      simp only [Function.comp_apply]
      split_ifs <;> rfl
    rw [hel]
    exact l.nodup

/-- `STAILQ_REMOVE` of the item of an element. -/
def remove (l : ElList) (el : ℕ) : ElList where
  items := l.items.filter fun item => item.el ≠ el
  nodup := l.nodup.sublist (List.filter_sublist.map _)

theorem not_mem_remove (l : ElList) (el : ℕ) : el ∉ (l.remove el).items.map ElementItem.el := by
  simp [remove]

/-- `STAILQ_INSERT_TAIL` of an item for an element that is not in the list. -/
def insertTail (l : ElList) (item : ElementItem) (h : item.el ∉ l.items.map ElementItem.el) :
    ElList where
  items := l.items ++ [item]
  nodup := by
    rw [List.map_append]
    exact l.nodup.append (List.nodup_singleton _) (by simpa using h)

/-- The item of an element is in the list. -/
def has (l : ElList) (el : ℕ) : Bool := el ∈ l.items.map ElementItem.el

end ElList

/-- What the pipelines of a process share. -/
structure Heap where
  els : ℕ → LinkEl
  rings : ℕ → Ringbuf
  /-- The handle of the next ring buffer. -/
  nextRb : ℕ
  /-- The arguments of `rb_destroy`, the last one first. -/
  destroyed : List ℕ
  memory : List Bool
  /-- `static rb` of `_pipeline_rb_linked`. -/
  linkedRb : Option ℕ
  /-- `static rb` of `audio_pipeline_el_item_link`. -/
  itemRb : Option ℕ
  events : Events

/-- `struct audio_pipeline`. -/
structure Pipeline where
  elList : ElList
  rbList : List RingbufItem
  state : AelState
  linked : Bool
  listener : Option ℕ

/-- `audio_pipeline_init`. -/
def Pipeline.init : Pipeline where
  elList := .empty
  rbList := []
  state := .init
  linked := false
  listener := none

/-- A pipeline and the heap it lives in. -/
structure Links extends Heap, Pipeline

/-- A process that has not linked anything, all of its elements alike. -/
def Heap.start : Heap where
  els := fun _ =>
    { tag := none, outRbSize := 8, input := .rb none, output := .rb none, state := .init }
  rings := fun _ => .empty 0
  nextRb := 0
  destroyed := []
  memory := []
  linkedRb := none
  itemRb := none
  events :=
    { iface := fun e =>
        { internalQueue := some e, externalQueue := none, internalQueueSize := 5,
          externalQueueSize := 5 }
      queue := fun _ => { maxmsg := 5, msgs := [] } }

namespace Links

/-! ### The heap -/

/-- The outcome of an allocation. -/
def calloc (s : Links) : Bool × Links :=
  match s.memory with
  | [] => (true, s)
  | ok :: memory => (ok, { s with memory := memory })

/-- `rb_create(block_size, 1)`. -/
def rbCreate (s : Links) (blockSize : ℤ) : Option ℕ × Links :=
  let r := if blockSize < 2 then (false, s) else s.calloc
  match AudioPipeline.rbCreate blockSize 1 r.1 with
  | none => (none, r.2)
  | some rb =>
    (some r.2.nextRb,
      { r.2 with
        rings := Function.update r.2.rings r.2.nextRb rb, nextRb := r.2.nextRb + 1 })

/-- Writes an element. -/
def setEl (s : Links) (el : ℕ) (f : LinkEl → LinkEl) : Links :=
  { s with els := Function.update s.els el (f (s.els el)) }

/-- `audio_element_set_input_ringbuf`. -/
def audioElementSetInputRingbuf (s : Links) (el : ℕ) (rb : Option ℕ) : Links :=
  s.setEl el fun e => { e with input := e.input.setRingbuf rb }

/-- `audio_element_set_output_ringbuf`. -/
def audioElementSetOutputRingbuf (s : Links) (el : ℕ) (rb : Option ℕ) : Links :=
  s.setEl el fun e => { e with output := e.output.setRingbuf rb }

/-- Both sides of the element are set to `NULL`. -/
def detach (s : Links) (el : ℕ) : Links :=
  (s.audioElementSetOutputRingbuf el none).audioElementSetInputRingbuf el none

/-- `audio_element_reset_state`. -/
def audioElementResetState (s : Links) (el : ℕ) : Links :=
  s.setEl el fun e => { e with state := .init }

/-- Writes the flags of the item of an element. -/
def setFlags (s : Links) (el : ℕ) (linked keptCtx : Bool → Bool) : Links :=
  { s with elList := s.elList.setFlags el linked keptCtx }

/-! ### Lookup -/

/-- `audio_pipeline_get_el_item_by_tag`. -/
def getElItemByTag (s : Links) (tag : CString) : Option ElementItem :=
  s.elList.items.find? fun item =>
    match (s.els item.el).tag with
    | some elTag => strcasecmp elTag tag
    | none => false

/-- `audio_pipeline_get_el_item_by_handle`. -/
def getElItemByHandle (s : Links) (el : ℕ) : Option ElementItem :=
  s.elList.items.find? fun item => item.el = el

/-! ### Registering -/

/-- `audio_pipeline_unregister`, also `audio_pipeline_unregister_element`. -/
def audioPipelineUnregister (s : Links) (el : ℕ) : ℤ × Links :=
  (if s.elList.has el then ESP_OK else ESP_FAIL, { s with elList := s.elList.remove el })

/-- `audio_element_set_tag` to a name. -/
def audioElementSetTag (s : Links) (el : ℕ) (name : CString) : Links :=
  match s.calloc with
  | (ok, s) => s.setEl el fun e => { e with tag := if ok then some name else none }

/-- `audio_pipeline_register`.  The list that the item is added to is the one the element was
unregistered from. -/
def audioPipelineRegister (s : Links) (el : ℕ) (name : Option CString) : ℤ × Links :=
  let s₁ := (s.audioPipelineUnregister el).2
  let s₂ := match name with
    | none => s₁
    | some name => s₁.audioElementSetTag el name
  match s₂.calloc with
  | (false, s') => (ESP_ERR_NO_MEM, s')
  | (true, s') =>
    (ESP_OK,
      { s' with
        elList := (s.elList.remove el).insertTail ⟨el, false, false⟩ (s.elList.not_mem_remove el) })

/-- `audio_pipeline_register_element`. -/
def audioPipelineRegisterElement (s : Links) (el : ℕ) : Links :=
  if h : el ∈ s.elList.items.map ElementItem.el then s
  else
    match s.calloc with
    | (false, s') => s'
    | (true, s') => { s' with elList := s.elList.insertTail ⟨el, true, false⟩ h }

/-- `audio_pipeline_register_more`. -/
def audioPipelineRegisterMore (s : Links) (els : List ℕ) : ℤ × Links :=
  (ESP_OK, els.foldl audioPipelineRegisterElement s)

/-- `audio_pipeline_unregister_more`. -/
def audioPipelineUnregisterMore (s : Links) (els : List ℕ) : ℤ × Links :=
  (ESP_OK, els.foldl (fun s el => (s.audioPipelineUnregister el).2) s)

/-! ### The listener -/

/-- The loop of `audio_pipeline_set_listener` or `audio_pipeline_remove_listener` over the linked
elements: it ends at the first one for which `op` fails. -/
def forLinked (op : Events → ℕ → ℤ × Events) (es : Events) : List ElementItem → ℤ × Events
  | [] => (ESP_OK, es)
  | item :: items =>
    if item.linked then
      match op es item.el with
      | (ret, es) => if ret ≠ ESP_OK then (ESP_FAIL, es) else forLinked op es items
    else forLinked op es items

/-- `audio_pipeline_remove_listener`. -/
def audioPipelineRemoveListener (s : Links) : ℤ × Links :=
  match s.listener with
  | none => (ESP_FAIL, s)
  | some listener =>
    match forLinked (fun es el => es.audioEventIfaceRemoveListener listener el) s.events
        s.elList.items with
    | (ret, es) =>
      if ret ≠ ESP_OK then (ESP_FAIL, { s with events := es })
      else (ESP_OK, { s with events := es, listener := none })

/-- `audio_pipeline_set_listener`. -/
def audioPipelineSetListener (s : Links) (listener : ℕ) : ℤ × Links :=
  let s := if s.listener.isSome then s.audioPipelineRemoveListener.2 else s
  match forLinked (fun es el => es.audioEventIfaceSetListener el listener) s.events
      s.elList.items with
  | (ret, es) =>
    if ret ≠ ESP_OK then (ESP_FAIL, { s with events := es })
    else (ESP_OK, { s with events := es, listener := some listener })

/-! ### Unlinking -/

/-- The loop of `audio_pipeline_unlink` over `el_list`. -/
def unlinkElements (s : Links) : List ElementItem → Links
  | [] => s
  | item :: items =>
    if item.linked then
      ((s.setFlags item.el (fun _ => false) (fun _ => false)).detach item.el).unlinkElements items
    else s.unlinkElements items

/-- The loop of `audio_pipeline_unlink` over `rb_list`. -/
def unlinkRingbufs (s : Links) : List RingbufItem → Links
  | [] => s
  | item :: items =>
    let s := match item.hostEl with
      | some hostEl => s.detach hostEl
      | none => s
    ({ s with destroyed := item.rb :: s.destroyed } : Links).unlinkRingbufs items

/-- `audio_pipeline_unlink`. -/
def audioPipelineUnlink (s : Links) : Links :=
  if s.linked then
    let s := s.audioPipelineRemoveListener.2
    let s := s.unlinkElements s.elList.items
    { s.unlinkRingbufs s.rbList with rbList := [], linked := false }
  else s

/-! ### Linking -/

/-- A new ring buffer for the output of the element, with its item at the end of `rb_list`. -/
def createRing (s : Links) (el : ℕ) : Option ℕ × Links :=
  match s.calloc with
  | (false, s) => (none, s)
  | (true, s) =>
    match s.rbCreate (s.els el).outRbSize with
    | (none, s) => (none, s)
    | (some rb, s) => (some rb, { s with rbList := s.rbList ++ [⟨rb, some el, true, false⟩] })

/-- `_pipeline_rb_linked`.  The static variable takes what `rb_create` returns, `NULL` too, and
keeps its value if the item cannot be allocated. -/
def pipelineRbLinked (s : Links) (el : ℕ) (first last : Bool) : ℤ × Links :=
  if last then (ESP_OK, s.audioElementSetInputRingbuf el s.linkedRb)
  else
    let s := if first then s else s.audioElementSetInputRingbuf el s.linkedRb
    match s.createRing el with
    | (none, s') =>
      (ESP_ERR_NO_MEM, { s' with linkedRb := if s.calloc.1 then none else s.linkedRb })
    | (some rb, s') =>
      (ESP_OK,
        ({ s' with linkedRb := some rb } : Links).audioElementSetOutputRingbuf el (some rb))

/-- The loop of `audio_pipeline_link` and `audio_pipeline_link_more`, which look the elements up
with `find`. -/
def linkLoop {κ : Type*} (find : Links → κ → Option ElementItem) (s : Links) (first : Bool) :
    List κ → ℤ × Links
  | [] => (ESP_OK, { s with linked := true })
  | k :: ks =>
    match find s k with
    | none => (ESP_FAIL, s)
    | some item =>
      match (s.setFlags item.el (fun _ => true) (fun _ => false)).pipelineRbLinked item.el first
          ks.isEmpty with
      | (ret, s) => if ret ≠ ESP_OK then (ret, s) else linkLoop find s false ks

/-- `audio_pipeline_link`. -/
def audioPipelineLink (s : Links) (linkTag : List CString) : ℤ × Links :=
  linkLoop getElItemByTag s.audioPipelineUnlink true linkTag

/-- `audio_pipeline_link_more`. -/
def audioPipelineLinkMore (s : Links) (els : List ℕ) : ℤ × Links :=
  linkLoop getElItemByHandle s.audioPipelineUnlink true els

/-- `audio_pipeline_link_insert`. -/
def audioPipelineLinkInsert (s : Links) (first : Bool) (prev conectRb next : ℕ) : ℤ × Links :=
  let s := if first then s.audioPipelineRegisterElement prev else s
  let s := s.audioPipelineRegisterElement next
  let s := (s.audioElementSetOutputRingbuf prev (some conectRb)).audioElementSetInputRingbuf next
    (some conectRb)
  match s.calloc with
  | (ok, s) =>
    (ESP_OK,
      { s with
        linked := true
        rbList := if ok then s.rbList ++ [⟨conectRb, some prev, true, false⟩] else s.rbList })

/-! ### Breaking up -/

/-- `audio_pipeline_reset_kept_state`, in `rb_list`: the first item of the ring buffer. -/
def resetRingbufItem (rb : ℕ) : List RingbufItem → List RingbufItem
  | [] => []
  | item :: items =>
    if item.rb = rb then { item with linked := false, keptCtx := false, hostEl := none } :: items
    else item :: resetRingbufItem rb items

/-- `audio_pipeline_reset_kept_state`. -/
def audioPipelineResetKeptState (s : Links) (el : ℕ) : ℤ × Links :=
  let rb := (s.els el).output.ringbuf
  let s := (s.setFlags el (fun _ => false) (fun _ => false)).audioElementSetOutputRingbuf el none
  (ESP_OK,
    { s with
      linked := false
      rbList := match rb with
        | some rb => resetRingbufItem rb s.rbList
        | none => s.rbList })

/-- The inner loop of `audio_pipeline_breakup_elements` for an element that is not kept.  It sets
both sides of the element to `NULL` after the first item that does not match, and finds no output
then. -/
def release (s : Links) (el : ℕ) : List RingbufItem → Links × List RingbufItem
  | [] => (s, [])
  | item :: items =>
    match (s.els el).output.ringbuf with
    | none =>
      ((s.setFlags el (fun _ => false) (fun _ => false)).audioElementSetInputRingbuf el none,
        item :: items)
    | some rb =>
      if item.rb = rb then
        ((s.setFlags el (fun _ => false) (fun _ => false)).detach el,
          { item with keptCtx := false, linked := false, hostEl := none } :: items)
      else
        let r := (s.detach el).release el items
        (r.1, item :: r.2)

/-- The first item of the ring buffer is marked as kept. -/
def markKept (rb : ℕ) : List RingbufItem → List RingbufItem
  | [] => []
  | item :: items =>
    if item.rb = rb then { item with keptCtx := true } :: items else item :: markKept rb items

/-- The inner loop of `audio_pipeline_breakup_elements` for an element that may be kept; `none`:
its output is not in `rb_list`, and nothing happens to it. -/
def keep (s : Links) (el : ℕ) : Option Links :=
  match (s.els el).output.ringbuf with
  | none => none
  | some rb =>
    if rb ∈ s.rbList.map RingbufItem.rb then
      let s :=
        if (s.els el).state = .running ∨ (s.els el).state = .paused then
          { s.setFlags el (fun _ => false) (fun _ => true) with rbList := markKept rb s.rbList }
        else (s.setFlags el (fun _ => false) id).audioElementSetOutputRingbuf el none
      some (s.audioElementSetInputRingbuf el none)
    else none

/-- The loop of `audio_pipeline_breakup_elements` over `el_list`.  `kept` is cleared by the first
element for which `keep` finds its output, whichever that is. -/
def breakupElements (s : Links) (keptCtxEl : Option ℕ) (kept : Bool) : List ElementItem → Links
  | [] => s
  | item :: items =>
    if item.linked then
      if kept = false ∧ keptCtxEl ≠ some item.el then
        let s := s.audioElementResetState item.el
        let r := s.release item.el s.rbList
        ({ r.1 with rbList := r.2 } : Links).breakupElements keptCtxEl kept items
      else
        match s.keep item.el with
        | none => s.breakupElements keptCtxEl kept items
        | some s => s.breakupElements keptCtxEl false items
    else s.breakupElements keptCtxEl kept items

/-- The last loop of `audio_pipeline_breakup_elements`. -/
def resetRingbufs (s : Links) : List RingbufItem → (ℕ → Ringbuf) × List RingbufItem
  | [] => (s.rings, [])
  | item :: items =>
    if item.keptCtx then
      let r := s.resetRingbufs items
      (r.1, item :: r.2)
    else
      let r := ({ s with rings := Function.update s.rings item.rb (rbReset (s.rings item.rb)) }
        : Links).resetRingbufs items
      (r.1, { item with linked := false } :: r.2)

/-- `audio_pipeline_breakup_elements`. -/
def audioPipelineBreakupElements (s : Links) (keptCtxEl : Option ℕ) : ℤ × Links :=
  let s := s.audioPipelineRemoveListener.2
  let s := s.breakupElements keptCtxEl true s.elList.items
  let r := s.resetRingbufs s.rbList
  (ESP_OK, { s with rings := r.1, rbList := r.2, linked := false, state := .init })

/-! ### Relinking -/

/-- The search of `audio_pipeline_el_item_link` for the ring buffer kept for an element. -/
def takeKept (el : ℕ) : List RingbufItem → Option ℕ × List RingbufItem
  | [] => (none, [])
  | item :: items =>
    if item.hostEl = some el then
      (some item.rb, { item with linked := true, keptCtx := false, hostEl := some el } :: items)
    else
      let r := takeKept el items
      (r.1, item :: r.2)

/-- The search of `audio_pipeline_el_item_link` for a free ring buffer.  An unused one that still
has a host loses it, and is passed over. -/
def takeFree (el : ℕ) : List RingbufItem → Option ℕ × List RingbufItem
  | [] => (none, [])
  | item :: items =>
    if item.linked = false ∧ item.keptCtx = false then
      if item.hostEl = none then
        (some item.rb, { item with linked := true, keptCtx := false, hostEl := some el } :: items)
      else
        let r := takeFree el items
        (r.1, { item with hostEl := none } :: r.2)
    else
      let r := takeFree el items
      (r.1, item :: r.2)

/-- The first half of `audio_pipeline_el_item_link`: a ring buffer of `rb_list` for the element,
which is marked as kept or not. -/
def reuseRing (s : Links) (el : ℕ) (keptCtx : Bool) : Option ℕ × Links :=
  if keptCtx then
    match takeKept el s.rbList with
    | (none, rbList) => (none, { s with rbList := rbList })
    | (some rb, rbList) =>
      (some rb, ({ s with rbList := rbList } : Links).setFlags el id (fun _ => false))
  else
    match takeFree el s.rbList with
    | (none, rbList) => (none, { s with rbList := rbList })
    | (some rb, rbList) =>
      (some rb,
        { s with
          rbList := rbList, rings := Function.update s.rings rb (rbReset (s.rings rb)) })

/-- `audio_pipeline_el_item_link` up to the ring buffer it works with: one of `rb_list`, or a new
one, which the last element does not get. -/
def takeRing (s : Links) (el : ℕ) (keptCtx last : Bool) : Option ℕ × Links :=
  if last = false ∧ (s.reuseRing el keptCtx).1 = none then (s.reuseRing el keptCtx).2.createRing el
  else s.reuseRing el keptCtx

/-- The rest of `audio_pipeline_el_item_link`, with the current ring buffer. -/
def attachRing (s : Links) (el : ℕ) (cur : Option ℕ) (first last : Bool) : ℤ × Links :=
  if last then (ESP_OK, s.audioElementSetInputRingbuf el s.itemRb)
  else
    match cur with
    | none => (ESP_ERR_NO_MEM, s)
    | some rb =>
      let s := if first then s else s.audioElementSetInputRingbuf el s.itemRb
      (ESP_OK, ({ s with itemRb := some rb } : Links).audioElementSetOutputRingbuf el (some rb))

/-- `audio_pipeline_el_item_link`. -/
def elItemLink (s : Links) (el : ℕ) (keptCtx first last : Bool) : ℤ × Links :=
  (s.takeRing el keptCtx last).2.attachRing el (s.takeRing el keptCtx last).1 first last

/-- The loop of `audio_pipeline_relink` and `audio_pipeline_relink_more`, at element number `i`.
The element that the code searches for under the handle of the item found is this item's own.
What `audio_pipeline_el_item_link` returns is not looked at. -/
def relinkLoop {κ : Type*} (find : Links → κ → Option ElementItem) (isFirst : ℕ → Bool)
    (s : Links) (i : ℕ) : List κ → ℤ × Links
  | [] => (ESP_OK, { s with linked := true })
  | k :: ks =>
    match find s k with
    | none => (ESP_FAIL, s)
    | some item =>
      relinkLoop find isFirst
        ((s.setFlags item.el (fun _ => true) id).elItemLink item.el item.keptCtx (isFirst i)
          ks.isEmpty).2 (i + 1) ks

/-- `audio_pipeline_relink`. -/
def audioPipelineRelink (s : Links) (linkTag : List CString) : ℤ × Links :=
  if s.linked then (ESP_FAIL, s)
  else relinkLoop getElItemByTag (fun i => i = 0) s 0 linkTag

/-- `audio_pipeline_relink_more`; its counter is a `uint16_t`. -/
def audioPipelineRelinkMore (s : Links) (els : List ℕ) : ℤ × Links :=
  if s.linked then (ESP_FAIL, s)
  else relinkLoop getElItemByHandle (fun i => (i + 1) % 2 ^ 16 = 1) s 0 els

/-! ### Calls -/

/-- A call of one of the functions of this file on the pipeline, or a step of its elements. -/
inductive Op
  | register (el : ℕ) (name : Option CString)
  | registerMore (els : List ℕ)
  | unregister (el : ℕ)
  | unregisterMore (els : List ℕ)
  | link (linkTag : List CString)
  | linkMore (els : List ℕ)
  | linkInsert (first : Bool) (prev conectRb next : ℕ)
  | unlink
  | relink (linkTag : List CString)
  | relinkMore (els : List ℕ)
  | breakupElements (keptCtxEl : Option ℕ)
  | resetKeptState (el : ℕ)
  | setListener (listener : ℕ)
  | removeListener
  /-- the state of the element changes -/
  | elState (el : ℕ) (state : AelState)
  /-- the elements around a ring buffer read and write -/
  | io (rb : ℕ) (ring : Ringbuf)

/-- What the call returns and does. -/
def call (s : Links) : Op → ℤ × Links
  | .register el name => s.audioPipelineRegister el name
  | .registerMore els => s.audioPipelineRegisterMore els
  | .unregister el => s.audioPipelineUnregister el
  | .unregisterMore els => s.audioPipelineUnregisterMore els
  | .link linkTag => s.audioPipelineLink linkTag
  | .linkMore els => s.audioPipelineLinkMore els
  | .linkInsert first prev conectRb next => s.audioPipelineLinkInsert first prev conectRb next
  | .unlink => (ESP_OK, s.audioPipelineUnlink)
  | .relink linkTag => s.audioPipelineRelink linkTag
  | .relinkMore els => s.audioPipelineRelinkMore els
  | .breakupElements keptCtxEl => s.audioPipelineBreakupElements keptCtxEl
  | .resetKeptState el => s.audioPipelineResetKeptState el
  | .setListener listener => s.audioPipelineSetListener listener
  | .removeListener => s.audioPipelineRemoveListener
  | .elState el state => (ESP_OK, s.setEl el fun e => { e with state := state })
  | .io rb ring => (ESP_OK, { s with rings := Function.update s.rings rb ring })

/-- The pipeline as a labelled system. -/
def step (s : Links) (op : Op) : Option Links := some (s.call op).2

end Links

end AudioPipeline
