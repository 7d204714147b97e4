-- SUMMARY: What a texture's commits replay: all uploads in their order, and after them the last mipmap generation.
import ZenRemote.Client.GlTexture
import ZenRemote.Lib.Pipeline

/-!
# The replay of a texture

The calls on a texture reach GL with the execution of a commit. Uploads wait in a
list. A mipmap generation waits in a slot of its own, so of several since the last
commit only one remains, and it comes after the uploads.
-/

namespace ZenRemote.Client.GlTexture

/-- The calls that are replayed. -/
inductive TextureCall where
  | image2D (args : Image2D) (data : Bytes)
  | subImage2D (args : SubImage2D) (data : Bytes)
  | generateMipmap (target : UInt32)
  deriving DecidableEq

namespace TextureCall

def toGl : TextureCall → GlCall
  | image2D args data => .texImage2D args data
  | subImage2D args data => .texSubImage2D args data
  | generateMipmap target => .generateMipmap target

def upload : TextureCall → Option (Sum Image2D SubImage2D × Bytes)
  | image2D args data => some (.inl args, data)
  | subImage2D args data => some (.inr args, data)
  | generateMipmap _ => none

def mipmap : TextureCall → Option UInt32
  | image2D _ _ => none
  | subImage2D _ _ => none
  | generateMipmap target => some target

def apply (t : GlTexture) : TextureCall → GlTexture
  | image2D args data => t.glTexImage2D args data
  | subImage2D args data => t.glTexSubImage2D args data
  | generateMipmap target => t.glGenerateMipmap target

end TextureCall

/-- A texture in the update thread, with the calls since the last commit, and with
those before each earlier one. -/
structure Recorded where
  texture : GlTexture
  calls : List TextureCall := []
  earlier : List (List TextureCall) := []

namespace Recorded

/-- All calls, by the commit that follows them. -/
def intervals (p : Recorded) : List (List TextureCall) := p.earlier ++ [p.calls]

def call (p : Recorded) (c : TextureCall) : Recorded :=
  { p with texture := c.apply p.texture, calls := p.calls ++ [c] }

def committed (p : Recorded) : Recorded :=
  { texture := p.texture.committed, earlier := p.intervals }

end Recorded

def pipeline (gl : Driver) (id : UInt64) :
    Pipeline Unit Recorded TextureCall Command (Thread RenderingState) Empty where
  env := ()
  pending := { texture := { id := id } }
  rendering := { calls := [], rendering := {} }
  update := fun _ p c => some ((), p.call c)
  commands := fun _ p => p.texture.commitCommands
  committed := fun _ p => p.committed
  execute := fun _ t c => c.execute gl t
  render := fun _ t _ => t

/-- A call of `glTexImage2D`, `glTexSubImage2D` or `glGenerateMipmap`. -/
def isTextureCall : GlCall → Bool
  | .texImage2D _ _ => true
  | .texSubImage2D _ _ => true
  | .generateMipmap _ => true
  | _ => false

def issued (t : Thread RenderingState) : List GlCall := t.calls.filter isTextureCall

/-- What is issued for an upload. -/
def uploadCall : Sum Image2D SubImage2D × Bytes → GlCall
  | (.inl args, data) => .texImage2D args data
  | (.inr args, data) => .texSubImage2D args data

def mipmapCall (target : UInt32) : List GlCall := if target = 0 then [] else [.generateMipmap target]

def Command.issues : Command → List GlCall
  | .replay dataCommands target => dataCommands.map uploadCall ++ mipmapCall target
  | .delete => []

variable {gl : Driver} {t : Thread RenderingState}

@[simp] theorem issued_issue (c : GlCall) :
    issued (t.issue c) = issued t ++ if isTextureCall c then [c] else [] := by
  rw [issued, Thread.calls_issue, List.filter_append, ← issued, List.filter_cons, List.filter_nil]

@[simp] theorem issued_issueAll (cs : List GlCall) :
    issued (t.issueAll cs) = issued t ++ cs.filter isTextureCall := by
  rw [issued, Thread.calls_issueAll, List.filter_append, ← issued]

@[simp] theorem issued_assign (f : RenderingState → RenderingState) :
    issued (t.assign f) = issued t := rfl

theorem filter_dataCalls (textureId : GLuint) (dataCommands : List (Sum Image2D SubImage2D × Bytes)) :
    (dataCommands.flatMap (dataCalls textureId)).filter isTextureCall =
      dataCommands.map uploadCall := by
  induction dataCommands with
  | nil => rfl
  | cons c cs ih =>
    rw [List.flatMap_cons, List.filter_append, ih, List.map_cons]
    obtain ⟨args | args, data⟩ := c
    · rfl
    · rfl

theorem issued_execute (c : Command) : issued (c.execute gl t) = issued t ++ c.issues := by
  cases c with
  | delete =>
    rw [Command.execute, Command.issues, List.append_nil]
    split
    · rfl
    · rw [issued_issue]
      exact List.append_nil _
  | replay dataCommands target =>
    have hgen : issued (if t.rendering.textureId = 0 then (t.issue .genTextures).assign fun r =>
        { r with textureId := gl.name t.calls .genTextures } else t) = issued t := by
      split
      · rw [issued_assign, issued_issue]
        exact List.append_nil _
      · rfl
    rw [Command.execute, Command.issues, mipmapCall]
    split
    · rw [issued_issueAll, hgen, filter_dataCalls, List.append_nil]
    · rw [issued_issueAll, issued_issueAll, hgen, filter_dataCalls, List.append_assoc]
      rfl

-- ---------------------------------------------------------------------------
-- What the executed commits have issued
-- ---------------------------------------------------------------------------

/-- What a commit replays of the calls since the last one. -/
def replayed (calls : List TextureCall) : List GlCall :=
  (calls.filterMap TextureCall.upload).map uploadCall ++
    ((calls.filterMap TextureCall.mipmap).getLast?.map GlCall.generateMipmap).toList

/-- What is pending is what the calls since the last commit say. -/
structure Recorded.Consistent (p : Recorded) : Prop where
  uploads : p.texture.dataCommands = p.calls.filterMap TextureCall.upload
  target : p.texture.generateMipmapTarget = (p.calls.filterMap TextureCall.mipmap).getLast?.getD 0
  nonzero : ∀ target ∈ p.calls.filterMap TextureCall.mipmap, target ≠ 0

namespace Recorded

variable {p : Recorded}

theorem Consistent.call (h : p.Consistent) {c : TextureCall} (hc : c ≠ .generateMipmap 0) :
    (p.call c).Consistent := by
  have huploads : (p.call c).calls.filterMap TextureCall.upload =
      p.texture.dataCommands ++ [c].filterMap TextureCall.upload := by
    rw [h.uploads]
    exact List.filterMap_append
  have hmipmaps : (p.call c).calls.filterMap TextureCall.mipmap =
      p.calls.filterMap TextureCall.mipmap ++ [c].filterMap TextureCall.mipmap :=
    List.filterMap_append
  cases c with
  | generateMipmap target =>
    refine ⟨?_, ?_, ?_⟩
    · rw [huploads]
      exact (List.append_nil _).symm
    · rw [hmipmaps]
      exact (congrArg (Option.getD · 0) List.getLast?_concat).symm
    · rw [hmipmaps]
      intro target' hmem
      rcases List.mem_append.mp hmem with hmem | hmem
      · exact h.nonzero target' hmem
      · obtain rfl := List.mem_singleton.mp hmem
        rintro rfl
        exact hc rfl
  | image2D args data =>
    have hsame := hmipmaps.trans (List.append_nil _)
    exact ⟨huploads.symm, h.target.trans (congrArg (fun ts => ts.getLast?.getD 0) hsame.symm),
      hsame.symm ▸ h.nonzero⟩
  | subImage2D args data =>
    have hsame := hmipmaps.trans (List.append_nil _)
    exact ⟨huploads.symm, h.target.trans (congrArg (fun ts => ts.getLast?.getD 0) hsame.symm),
      hsame.symm ▸ h.nonzero⟩

theorem consistent_committed (p : Recorded) : p.committed.Consistent := by
  obtain ⟨huploads, htarget⟩ := clean_committed p.texture
  exact ⟨huploads, htarget, nofun⟩

/-- The slot says whether there was a mipmap generation, as no target is zero. -/
theorem Consistent.mipmapCall_eq (h : p.Consistent) : mipmapCall p.texture.generateMipmapTarget =
    ((p.calls.filterMap TextureCall.mipmap).getLast?.map GlCall.generateMipmap).toList := by
  rw [h.target, mipmapCall]
  cases hlast : (p.calls.filterMap TextureCall.mipmap).getLast? with
  | none => rfl
  | some target =>
    rw [Option.getD_some, if_neg (h.nonzero target (List.mem_of_getLast? hlast))]
    rfl

theorem Consistent.issues_commitCommands (h : p.Consistent) :
    p.texture.commitCommands.flatMap Command.issues = replayed p.calls := by
  rw [replayed, ← h.uploads, ← h.mipmapCall_eq, commitCommands]
  split
  · rename_i hclean
    rw [hclean.1, hclean.2]
    rfl
  · exact List.append_nil _

end Recorded

/-- The commands that are on the way lead to what the commit is to replay. -/
def tracking (gl : Driver) (id : UInt64) :
    (pipeline gl id).Tracking (fun _ _ c => c ≠ .generateMipmap 0) fun _ _ => True where
  Leads := fun _ t cs p => issued t ++ cs.flatMap Command.issues = p.intervals.flatMap replayed
  Tracks := fun _ p q => p.Consistent ∧ p.earlier.flatMap replayed = q.intervals.flatMap replayed
  leads_init := rfl
  tracks_init := ⟨⟨rfl, rfl, nofun⟩, rfl⟩
  leads_update := fun _ _ hleads => hleads
  tracks_update := by
    rintro - - p - q c ⟨⟩ hc ⟨hconsistent, hearlier⟩
    exact ⟨hconsistent.call hc, hearlier⟩
  leads_commit := by
    rintro - t cs p q - ⟨hconsistent, hearlier⟩ hleads
    have hissues : ((pipeline gl id).commands () p).flatMap Command.issues = replayed p.calls :=
      hconsistent.issues_commitCommands
    rw [List.flatMap_append, hissues, ← List.append_assoc, hleads, ← hearlier, Recorded.intervals,
      List.flatMap_append, List.flatMap_singleton]
  tracks_commit := by
    rintro - p q - -
    exact ⟨p.consistent_committed, rfl⟩
  leads_execute := by
    rintro - t c cs p hleads
    rw [List.flatMap_cons, ← List.append_assoc] at hleads
    exact (congrArg (· ++ cs.flatMap Command.issues) (issued_execute c)).trans hleads
  leads_render := nofun

/-- A call that the texture counts as one. -/
def NonzeroTarget : Pipeline.Label TextureCall Empty → Prop
  | .update c => c ≠ .generateMipmap 0
  | .commit => True
  | .execute => True
  | .render _ => True

instance (l : Pipeline.Label TextureCall Empty) : Decidable (NonzeroTarget l) := by
  cases l with
  | update c => exact inferInstanceAs (Decidable (c ≠ _))
  | commit => exact isTrue trivial
  | execute => exact isTrue trivial
  | render x => exact x.elim

/-- The commits that have been executed have issued each upload once, in order, and
after the uploads of each commit the last mipmap generation before it. -/
theorem issued_eq_replayed_run {gl : Driver} {id : UInt64}
    {ls : List (Pipeline.Label TextureCall Empty)}
    {s : Pipeline.State Unit Recorded Command (Thread RenderingState)} {k : Nat}
    (hls : ∀ l ∈ ls, NonzeroTarget l) (hrun : (pipeline gl id).machine.run ls = some s)
    (hk : s.HasExecuted k) :
    issued s.rendering =
      ((pipeline gl id).snapshot (s.commits.take k)).intervals.flatMap replayed := by
  have halong : (pipeline gl id).machine.Along (tracking gl id).Meets ls := by
    apply Machine.alongFrom_of_mem
    intro l hl s
    cases l with
    | update c => exact hls _ hl
    | commit => trivial
    | execute => trivial
    | render x => trivial
  have hleads : issued s.rendering ++ [] = _ := (tracking gl id).leads_run halong hrun hk
  rwa [List.append_nil] at hleads

/-- An image of one pixel. -/
def onePixel : Image2D := ⟨0x0DE1, 0, 0x8229, 1, 1, 0, 0x1903, 0x1401⟩

def mipmapsLast : List (Pipeline.Label TextureCall Empty) :=
  [.update (.image2D onePixel [255]), .update (.generateMipmap 0x0DE1), .commit, .execute]

theorem issued_eq_replayed_mipmapsLast : ∃ s,
    (pipeline constantDriver 1).machine.run mipmapsLast = some s ∧ s.HasExecuted 1 ∧
      issued s.rendering =
        ((pipeline constantDriver 1).snapshot (s.commits.take 1)).intervals.flatMap replayed := by
  obtain ⟨s, hs⟩ : ∃ s, (pipeline constantDriver 1).machine.run mipmapsLast = some s := ⟨_, rfl⟩
  have hexecuted : s.HasExecuted 1 := by
    cases hs
    exact ⟨Nat.le_refl 1, rfl⟩
  exact ⟨s, hs, hexecuted, issued_eq_replayed_run (by decide) hs hexecuted⟩

def mipmapsFirst : List (Pipeline.Label TextureCall Empty) :=
  [.update (.generateMipmap 0x0DE1), .update (.image2D onePixel [255]), .commit, .execute]

/-- The mipmaps that were generated before the upload are generated after it. -/
theorem issued_ne_intervals_mipmapsFirst : ¬ ∀ (gl : Driver) (id : UInt64)
    (ls : List (Pipeline.Label TextureCall Empty))
    (s : Pipeline.State Unit Recorded Command (Thread RenderingState)) (k : Nat),
      (∀ l ∈ ls, NonzeroTarget l) → (pipeline gl id).machine.run ls = some s → s.HasExecuted k →
        issued s.rendering =
          ((pipeline gl id).snapshot (s.commits.take k)).intervals.flatten.map TextureCall.toGl := by
  intro h
  have hissued := h constantDriver 1 mipmapsFirst _ 1 (by decide) rfl ⟨Nat.le_refl 1, rfl⟩
  have hcalls : [GlCall.texImage2D onePixel [255], .generateMipmap 0x0DE1] =
      [.generateMipmap 0x0DE1, .texImage2D onePixel [255]] := hissued
  cases hcalls

end ZenRemote.Client.GlTexture
