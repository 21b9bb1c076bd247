import BlackBull.StaticFiles
import BlackBull.TransitionRuns

/-!
# Confinement of static files

On a file system that stands still the caches change nothing about which file is answered with. A
precompressed sibling and a path left unresolved at a loop of links are not looked at again, and the
prefix of the URL is compared as text; where those lead nowhere else the middleware is confined.
-/

namespace BlackBull.Static

open ByteString Posix HeadParser

variable (lib : Library) (fs : FileSystem)

def octets (responses : List NativeResponse) : Bytes :=
  responses.flatMap fun response => response.body.getD []

def Outcome.Genuine : Outcome → Prop
  | .sent (some file) responses => ∃ modified content,read fs file=some (modified,content) ∧
    octets responses <:+: content ∧
    ∀ response∈responses,∀ path∈response.filePath,path=file
  | .sent none responses =>
    ∀ response∈responses,response.body=some [] ∧ response.filePath=none
  | .callNext | .raised => True

def Leads (root : List Name) (path : Bytes) : Prop := ∀ q∈fs.resolve path,root <+: q

instance (root : List Name) (path : Bytes) : Decidable (Leads fs root path) :=
  inferInstanceAs (Decidable (∀ q∈fs.resolve path,_))

def Outcome.Confined (root : List Name) : Outcome → Prop
  | .sent (some file) _ => Leads fs root file
  | _ => True

def Config.UnderPrefix (config : Config) (path : Bytes) : Prop :=
  config.urlPrefix=[] ∨ path=config.urlPrefix ∨ config.urlPrefix++[slash] <+: path

instance (config : Config) (path : Bytes) : Decidable (config.UnderPrefix path) :=
  inferInstanceAs (Decidable (_ ∨ _ ∨ _))

def Outcome.Answers (request : Request) (outcome : Outcome) : Prop :=
  outcome≠passOn request.hasNext ∧ outcome≠.raised

def StaticFiles.Handles (s : StaticFiles) (request : Request) : Prop :=
  request.conn.http=true ∧ request.conn.method∈methods ∧
    s.enabled.getD (!request.production)=true ∧
    startsWith request.conn.path s.config.urlPrefix=true

def Config.rest (config : Config) (request : Request) : Bytes :=
  request.conn.path.drop config.urlPrefix.length

/-- The resolution of the path, or of the index file of the directory it names, meets a loop. -/
def Config.Loops (config : Config) (rawPath : Bytes) : Prop :=
  fs.loops (config.requested lib rawPath)=true ∨
    ∃ target index,fs.realpath (config.requested lib rawPath)=some target ∧
      config.index=some index ∧ fs.loops (join target.text index)=true

def chosen (conn : Conn) (target : Bytes) : Bytes × Bytes :=
  if acceptEncoding conn.headers=[] then (target,[])
  else choose lib (siblings fs target) (acceptEncoding conn.headers) target

/-- A request in which what is not looked at does no harm. -/
structure Guarded (s : StaticFiles) (request : Request) : Prop where
  /-- A path that goes on after the prefix without a slash names no file. -/
  segment : s.Handles request →
    (s.config.locate lib fs (s.config.rest request)=.outside ∨
      request.conn.rangeReadable=true ∧
        ∃ path,s.config.locate lib fs (s.config.rest request)=.found path) →
    s.config.UnderPrefix request.conn.path
  /-- The precompressed sibling that is chosen leads below the root. -/
  sibling : s.Handles request → request.conn.rangeReadable=true →
    ∀ path,s.config.locate lib fs (s.config.rest request)=.found path →
      (chosen lib fs request.conn path).1≠path →
      Leads fs s.config.root.path (chosen lib fs request.conn path).1
  /-- A path that was left unresolved leads below the root. -/
  loop : s.Handles request → request.conn.rangeReadable=true →
    ∀ path,s.config.locate lib fs (s.config.rest request)=.found path →
      (chosen lib fs request.conn path).1=path →
      s.config.Loops lib fs (s.config.rest request) → Leads fs s.config.root.path path

variable {lib fs} {s : StaticFiles} {config : Config} {path : Bytes}

/-- A resolved path that passes the check leads below the root. -/
theorem leads_of_contains {t : FileSystem.Normal} (h : t.doubled=false ∧ fs.Canonical t.path)
    (hco : config.contains t.text=true) : Leads fs config.root.path t.text := by
  have ht : t.text=render t.path := by simp [FileSystem.Normal.text,h.1]
  rw [Config.contains,Bool.or_eq_true,decide_eq_true_iff,startsWith,List.isPrefixOf_iff_prefix,
    Config.rootSep,Config.rootStr,ht] at hco
  -- the text of a root after two slashes is not how a resolved path begins
  have hr : config.root.doubled=false := by
    by_contra hd
    refine FileSystem.not_doubled h.2.names ?_
    have hb : [slash,slash] <+: config.root.text := by
      simp only [FileSystem.Normal.text,eq_true_of_ne_false hd,if_true]
      cases config.root.path <;> simp [render]
    rcases hco with hco | hco
    · exact hco ▸ hb
    · exact (hb.trans (List.prefix_append _ _)).trans hco
  intro q hq
  rw [ht] at hq
  rw [h.2.resolve hq]
  simp only [FileSystem.Normal.text,hr] at hco
  exact FileSystem.prefix_of_render config.root_names h.2.names hco

theorem locateIndex_found {t : Bytes} (h : config.locateIndex fs t=.found path) :
    fs.isfile path=true ∧ ∃ i c,config.index=some i ∧
      fs.realpath (join t i)=some c ∧ path=c.text ∧
      config.contains path=true := by
  unfold Config.locateIndex at h
  cases hi : config.index with
  | none => simp [hi] at h
  | some i =>
    simp only [hi] at h
    split_ifs at h with hd
    cases hc : fs.realpath (join t i) with
    | none => simp [hc] at h
    | some c =>
      simp only [hc] at h
      split_ifs at h with hin
      obtain rfl := Located.found.inj h
      exact ⟨hin.2,i,c,rfl,hc,rfl,hin.1⟩

theorem locate_found {rp : Bytes} (h : config.locate lib fs rp=.found path) :
    fs.isfile path=true ∧ (¬ config.Loops lib fs rp → Leads fs config.root.path path) := by
  unfold Config.locate at h
  cases ht : fs.realpath (config.requested lib rp) with
  | none => simp [ht] at h
  | some t =>
    simp only [ht] at h
    split_ifs at h with hc hf
    · obtain rfl := Located.found.inj h
      refine ⟨hf,fun hl => leads_of_contains ?_ hc⟩
      exact (FileSystem.realpath_eq_some ht).2 (by simpa using fun h => hl (.inl h))
    · obtain ⟨hi,i,c,hin,hca,rfl,hins⟩ := locateIndex_found h
      refine ⟨hi,fun hl => leads_of_contains ?_ hins⟩
      refine (FileSystem.realpath_eq_some hca).2 ?_
      by_contra hlo
      exact hl (.inr ⟨t,i,ht,hin,by simpa using hlo⟩)

/-- The caches hold what would be computed again. -/
structure Memo (fs : FileSystem) (s : StaticFiles) : Prop where
  siblings : ∀ item∈s.siblingCache,item.2=siblings fs item.1
  bodies : ∀ item∈s.cache,∃ modified,read fs item.1=some (modified,item.2.body)

theorem mem_moveToEnd {c : Dict Bytes Entry} {i : Bytes × Entry}
    (h : i∈moveToEnd c path) : i∈c := by
  have hm : moveToEnd c path=c.moveToEnd path := by
    unfold moveToEnd Dict.moveToEnd
    cases c.get? path <;> rfl
  exact Dict.mem_moveToEnd (hm ▸ h)

theorem mem_store {c : Dict Bytes Entry} {e : Entry} {i : Bytes × Entry}
    (h : i∈store c path e) : i=(path,e) ∨ i∈c :=
  Dict.mem_set (mem_moveToEnd (List.mem_of_mem_drop h))

/-- What is loaded is the file; its body is its content. -/
def Fits (fs : FileSystem) (servedPath : Bytes) (file : Loaded) : Prop :=
  ∃ modified content,read fs servedPath=some (modified,content) ∧
    ∀ body∈file.body,body=content

def mimeOf (lib : Library) (path : Bytes) : Bytes :=
  (lib.guessType path).getD (ascii "application/octet-stream")

/-- What is loaded without a cache. -/
def fresh (lib : Library) (fs : FileSystem) (path servedPath : Bytes) : Option Loaded :=
  (read fs servedPath).map fun (mtimeNs,content) => ⟨mtimeNs,content.length,
    if content.length≤cacheMaxBytesPerFile then some content else none,mimeOf lib path⟩

def Entry.loaded (entry : Entry) : Loaded :=
  ⟨entry.mtimeNs,entry.size,some entry.body,entry.mime⟩

section Keeps

variable {P : Bytes → Loaded → Prop} {sp : Bytes}

/-- What the entries and a file loaded afresh have in common is kept. -/
theorem loadFresh_keeps (hs : ∀ i∈s.cache,P i.1 i.2.loaded)
    (hf : ∀ f∈fresh lib fs path sp,P sp f) (now : ℤ) (ce : Bytes) {o : Option Entry}
    (ho : ∀ e∈o,(sp,e)∈s.cache) : ∃ c r,s.loadFresh lib fs now path sp ce o =
      ({s with cache:=c},r) ∧ (∀ i∈c,P i.1 i.2.loaded) ∧
      (r=none → read fs sp=none) ∧ ∀ f∈r,P sp f := by
  unfold StaticFiles.loadFresh
  cases hr : read fs sp with
  | none => exact ⟨_,_,rfl,hs,fun _ => rfl,nofun⟩
  | some f =>
    obtain ⟨m,content⟩ := f
    have hp := hf _ (by rw [fresh,hr]; rfl)
    dsimp only at hp ⊢
    split
    · next e he =>
      obtain ⟨heo,hme⟩ := Option.filter_eq_some_iff.mp he
      obtain ⟨rfl,hsi⟩ := of_decide_eq_true hme
      have hen := hs _ (ho e heo)
      refine ⟨_,_,rfl,fun i hi => ?_,nofun,by rintro _ ⟨⟩; exact hsi ▸ hen⟩
      rcases Dict.mem_set (mem_moveToEnd hi) with rfl | hi
      · exact hen
      · exact hs i hi
    · split_ifs with hl
      · rw [if_pos hl] at hp
        refine ⟨_,_,rfl,fun i hi => ?_,nofun,by rintro _ ⟨⟩; exact hp⟩
        rcases mem_store hi with rfl | hi
        · exact hp
        · exact hs i hi
      · rw [if_pos hl] at hp
        exact ⟨_,_,rfl,hs,nofun,by rintro _ ⟨⟩; exact hp⟩
      · rw [if_neg hl] at hp
        exact ⟨_,_,rfl,fun i hi => hs i (List.mem_of_mem_filter hi),nofun,by rintro _ ⟨⟩; exact hp⟩
      · rw [if_neg hl] at hp
        exact ⟨_,_,rfl,hs,nofun,by rintro _ ⟨⟩; exact hp⟩

theorem load_keeps (hs : ∀ i∈s.cache,P i.1 i.2.loaded)
    (hf : ∀ f∈fresh lib fs path sp,P sp f) (now : ℤ) (ce : Bytes) :
    ∃ c r,s.load lib fs now path sp ce=({s with cache:=c},r) ∧
      (∀ i∈c,P i.1 i.2.loaded) ∧ (r=none → read fs sp=none) ∧ ∀ f∈r,P sp f := by
  unfold StaticFiles.load
  split
  · next e he =>
    have hg : (sp,e)∈s.cache := by
      split_ifs at he
      exact Dict.mem_of_get? he
    split_ifs
    · exact ⟨_,_,rfl,fun i hi => hs i (mem_moveToEnd hi),by simp,by rintro _ ⟨⟩; exact hs _ hg⟩
    · exact loadFresh_keeps hs hf now ce (by rintro _ ⟨⟩; exact hg)
  · exact loadFresh_keeps hs hf now ce (by simp)

theorem negotiate_keeps (hs : ∀ i∈s.siblingCache,i.2=siblings fs i.1) (c : Conn) (path : Bytes) :
    ∃ b,s.negotiate lib fs c path=({s with siblingCache:=b},chosen lib fs c path) ∧
      ∀ i∈b,i.2=siblings fs i.1 := by
  unfold StaticFiles.negotiate chosen
  dsimp only
  split_ifs
  · exact ⟨_,rfl,hs⟩
  · cases hg : s.siblingCache.get? path with
    | some a =>
      obtain rfl : a=siblings fs path := hs _ (Dict.mem_of_get? hg)
      exact ⟨_,rfl,hs⟩
    | none =>
      refine ⟨_,rfl,fun i hi => ?_⟩
      rcases Dict.mem_set hi with rfl | hi
      · rfl
      · exact hs i hi
  · exact ⟨_,rfl,hs⟩

/-- What is answered with a file that is loaded. -/
def served (lib : Library) (fs : FileSystem) (config : Config) (conn : Conn) (path : Bytes) :
    Option Loaded → Outcome
  | none => .sent none [respond 404 []]
  | some file =>
    if conn.rangeReadable then .sent (some (chosen lib fs conn path).1)
      (answer lib fs config conn (chosen lib fs conn path).1 (chosen lib fs conn path).2 file)
    else .raised

theorem serve_keeps {cn : Conn} (hs : ∀ i∈s.siblingCache,i.2=siblings fs i.1)
    (hc : ∀ i∈s.cache,P i.1 i.2.loaded)
    (hf : ∀ f∈fresh lib fs path (chosen lib fs cn path).1,P (chosen lib fs cn path).1 f)
    (now : ℤ) : ∃ b c r,s.serve lib fs now cn path =
      ({s with siblingCache:=b,cache:=c},served lib fs s.config cn path r) ∧
      (∀ i∈b,i.2=siblings fs i.1) ∧ (∀ i∈c,P i.1 i.2.loaded) ∧
      (r=none → read fs (chosen lib fs cn path).1=none) ∧
      ∀ f∈r,P (chosen lib fs cn path).1 f := by
  obtain ⟨b,hn,hb⟩ := negotiate_keeps hs cn path
  obtain ⟨c,r,hl,hr⟩ := load_keeps (s := {s with siblingCache:=b}) hc hf now
    (chosen lib fs cn path).2
  refine ⟨b,c,r,?_,hb,hr⟩
  unfold StaticFiles.serve
  rw [hn]
  dsimp only
  rw [hl]
  cases r with
  | none => rfl
  | some f =>
    unfold served
    split_ifs <;> rfl

end Keeps

theorem octets_streamed (k : ℕ) (c : Bytes) (r : ℕ) : octets (streamed k c r) <+: c ∧
      ∀ res∈streamed k c r,res.filePath=none := by
  induction k generalizing c r with
  | zero => exact ⟨List.nil_prefix,by simp [streamed]⟩
  | succ k ih =>
    rw [streamed]
    split_ifs
    · exact ⟨List.nil_prefix,by simp⟩
    · generalize hc : c.take (min chunkSize r)=chunk
      have hcu : chunk++c.drop chunk.length=c :=
        List.prefix_iff_eq_append.mp (hc ▸ List.take_prefix _ _)
      obtain ⟨ho,hp⟩ := ih (c.drop chunk.length) (r - chunk.length)
      refine ⟨?_,List.forall_mem_cons.mpr ⟨rfl,hp⟩⟩
      conv_rhs => rw [← hcu]
      exact (List.prefix_append_right_inj chunk).mpr ho

theorem sendContent_genuine {sp c : Bytes} {m : ℕ} {f : Loaded} (hr : read fs sp=some (m,c))
    (hb : ∀ body∈f.body,body=c) (cn : Conn) (st sta stop : ℕ) (eh : HeaderList) :
    octets (sendContent fs cn sp f st sta stop eh) <:+: c ∧
      ∀ r∈sendContent fs cn sp f st sta stop eh,∀ path∈r.filePath,path=sp := by
  unfold sendContent
  cases hf : f.body with
  | some body =>
    obtain rfl := hb body hf
    refine ⟨?_,by simp⟩
    simp only [octets,List.flatMap_cons,List.flatMap_nil,List.append_nil,Option.getD_some]
    split_ifs
    · exact (List.drop_suffix _ _).isInfix.trans (List.take_prefix _ _).isInfix
    · exact List.infix_rfl
  | none =>
    dsimp only
    split_ifs
    · exact ⟨List.nil_infix,by simp⟩
    · obtain ⟨ho,hp⟩ := octets_streamed (stop - sta) (c.drop sta) (stop - sta)
      rw [hr,Option.map_some,Option.getD_some]
      refine ⟨ho.isInfix.trans (List.drop_suffix _ _).isInfix,?_⟩
      refine List.forall_mem_cons.mpr ⟨by simp,fun r hre path hpa => ?_⟩
      simp [hp r hre] at hpa

theorem answer_genuine {sp : Bytes} {f : Loaded} (hf : Fits fs sp f)
    (c : Conn) (ce : Bytes) : (Outcome.sent (some sp)
      (answer lib fs config c sp ce f)).Genuine fs := by
  obtain ⟨m,content,hr,hb⟩ := hf
  refine ⟨m,content,hr,?_⟩
  have he (st : ℕ) (hs : HeaderList) : octets [respond st hs] <:+: content ∧
      ∀ r∈[respond st hs],∀ path∈r.filePath,path=sp :=
    ⟨List.nil_infix,by simp [respond]⟩
  unfold answer
  dsimp only
  split_ifs
  all_goals first
    | exact he _ _
    | split
      · exact sendContent_genuine hr hb c _ _ _ _
      · split_ifs
        · exact he _ _
        · exact sendContent_genuine hr hb c _ _ _ _

theorem read_isSome_of_isfile (h : fs.isfile path=true) : (read fs path).isSome=true := by
  unfold FileSystem.isfile at h
  unfold read
  split at h
  · simp [*]
  · simp at h

theorem chosen_isfile (lib : Library) (h : fs.isfile path=true) (c : Conn) :
    fs.isfile (chosen lib fs c path).1=true := by
  unfold chosen choose
  split_ifs
  · exact h
  · split
    · next enc su hf =>
      have hs := List.find?_some hf
      simp only [Bool.and_eq_true] at hs
      obtain ⟨si,hsi⟩ := Option.isSome_iff_exists.mp hs.1
      rw [hsi,Option.getD_some]
      have hm := Dict.mem_of_get? hsi
      simp only [siblings,List.mem_map,List.mem_filter] at hm
      obtain ⟨⟨e,s'⟩,⟨-,hfi⟩,heq⟩ := hm
      obtain ⟨rfl,rfl⟩ := Prod.mk.inj heq
      exact hfi
    · exact h

inductive Decides (lib : Library) (fs : FileSystem) (s : StaticFiles) (request : Request) :
    Outcome → Prop
  | passes (h : ¬ s.Handles request ∨
      s.config.locate lib fs (s.config.rest request)=.missing) :
      Decides lib fs s request (passOn request.hasNext)
  | raises (h : s.config.locate lib fs (s.config.rest request)=.raised ∨
      request.conn.rangeReadable=false ∧
        ∃ path,s.config.locate lib fs (s.config.rest request)=.found path) :
      Decides lib fs s request .raised
  | refuses (handles : s.Handles request)
      (h : s.config.locate lib fs (s.config.rest request)=.outside) :
      Decides lib fs s request (.sent none [respond 400 []])
  | serves (handles : s.Handles request) (readable : request.conn.rangeReadable=true)
      {path : Bytes} (h : s.config.locate lib fs (s.config.rest request)=.found path)
      {file : Loaded} (fits : Fits fs (chosen lib fs request.conn path).1 file) :
      Decides lib fs s request (.sent (some (chosen lib fs request.conn path).1)
        (answer lib fs s.config request.conn (chosen lib fs request.conn path).1
          (chosen lib fs request.conn path).2 file))

theorem serve_decides (lib : Library) (h : Memo fs s) (hf : fs.isfile path=true) (now : ℤ)
    (cn : Conn) :
    ∃ t f,Memo fs t ∧ t.config=s.config ∧ Fits fs (chosen lib fs cn path).1 f ∧
      s.serve lib fs now cn path=(t,served lib fs s.config cn path (some f)) := by
  have hfr : ∀ f∈fresh lib fs path (chosen lib fs cn path).1,
      Fits fs (chosen lib fs cn path).1 f := by
    intro f hfi
    obtain ⟨⟨m,content⟩,hre,rfl⟩ := Option.map_eq_some_iff.mp hfi
    refine ⟨m,content,hre,fun body hb => ?_⟩
    dsimp only at hb
    split_ifs at hb
    · exact (Option.some.inj hb).symm
    · cases hb
  obtain ⟨b,c,r,hse,hb,hc,hn,hp⟩ := serve_keeps h.siblings
    (fun i hi => (h.bodies i hi).imp fun _ hm => ⟨_,hm,by rintro _ ⟨⟩; rfl⟩) hfr now
  cases r with
  | none =>
    have hr := read_isSome_of_isfile (chosen_isfile lib hf cn)
    simp [hn rfl] at hr
  | some f =>
    refine ⟨{s with siblingCache:=b,cache:=c},f,⟨hb,fun i hi => ?_⟩,rfl,hp f rfl,hse⟩
    obtain ⟨m,content,hre,hbo⟩ := hc i hi
    exact ⟨m,hbo _ rfl ▸ hre⟩

theorem call_decides (lib : Library) (h : Memo fs s) (q : Request) :
    Memo fs (s.call lib fs q).1 ∧ (s.call lib fs q).1.config=s.config ∧
      Decides lib fs s q (s.call lib fs q).2 := by
  have hp (hn : ¬ s.Handles q ∨ s.config.locate lib fs (s.config.rest q)=.missing) (t : StaticFiles)
      (ht : t=s ∨ ∃ e,t={s with enabled:=e}) :
      Memo fs t ∧ t.config=s.config ∧ Decides lib fs s q (passOn q.hasNext) := by
    rcases ht with rfl | ⟨e,rfl⟩
    · exact ⟨h,rfl,.passes hn⟩
    · exact ⟨⟨h.siblings,h.bodies⟩,rfl,.passes hn⟩
  unfold StaticFiles.call
  dsimp only
  by_cases hc : q.conn.http=false ∨ q.conn.method∉methods
  · rw [if_pos hc]
    refine hp (.inl fun hh => ?_) s (.inl rfl)
    rcases hc with hht | hm
    · exact Bool.false_ne_true (hht.symm.trans hh.1)
    · exact hm hh.2.1
  rw [if_neg hc]
  obtain ⟨hht,hm⟩ := not_or.mp hc
  by_cases he : s.enabled.getD (!q.production)=false
  · rw [if_pos he]
    refine hp (.inl fun hh => ?_) _ (.inr ⟨_,rfl⟩)
    exact Bool.false_ne_true (he.symm.trans hh.2.2.1)
  rw [if_neg he]
  by_cases hs : startsWith q.conn.path s.config.urlPrefix=true
  case neg =>
    rw [if_neg hs]
    exact hp (.inl fun hh => hs hh.2.2.2) _ (.inr ⟨_,rfl⟩)
  rw [if_pos hs]
  have hh : s.Handles q := ⟨by simpa using hht,not_not.mp hm,by simpa using he,hs⟩
  have hme (e : Option Bool) : Memo fs {s with enabled:=e} := ⟨h.siblings,h.bodies⟩
  rw [← Config.rest]
  cases hl : s.config.locate lib fs (s.config.rest q) with
  | raised => exact ⟨hme _,rfl,.raises (.inl hl)⟩
  | outside => exact ⟨hme _,rfl,.refuses hh hl⟩
  | missing => exact hp (.inr hl) _ (.inr ⟨_,rfl⟩)
  | found path =>
    obtain ⟨t,f,hme,hco,hf,hse⟩ := serve_decides lib
      (hme (some (s.enabled.getD (!q.production)))) (locate_found hl).1 q.now
      q.conn
    dsimp only
    rw [hse,served]
    refine ⟨hme,hco,?_⟩
    cases hr : q.conn.rangeReadable with
    | true => exact .serves hh hr hl hf
    | false => exact .raises (.inr ⟨hr,path,hl⟩)

def StaticFiles.after (lib : Library) (fs : FileSystem) (s : StaticFiles)
    (requests : List Request) : StaticFiles :=
  run (fun s request => (s.call lib fs request).1) s requests

theorem memo_after (lib : Library) (h : Memo fs s) (r : List Request) :
    Memo fs (s.after lib fs r) ∧ (s.after lib fs r).config=s.config := by
  have hs (t : StaticFiles) (q : Request) (ht : Memo fs t ∧ t.config=s.config)
      (_ : True) : Memo fs (t.call lib fs q).1 ∧ (t.call lib fs q).1.config=s.config :=
    have hc := call_decides lib ht.1 q
    ⟨hc.1,hc.2.1.trans ht.2⟩
  exact (along_of_forall s fun _ _ _ => trivial).invariant hs ⟨h,rfl⟩

theorem passOn_genuine (hasNext : Bool) : (passOn hasNext).Genuine fs := by
  unfold passOn
  split_ifs <;> simp [Outcome.Genuine,respond]

theorem passOn_confined (hasNext : Bool) (r : List Name) : (passOn hasNext).Confined fs r := by
  unfold passOn
  split_ifs <;> trivial

/-- A request for which no file is looked up, or found, is guarded. -/
theorem guarded_of_not_found {q : Request} (h : ¬ s.Handles q ∨
    s.config.locate lib fs (s.config.rest q)=.missing ∨
    s.config.locate lib fs (s.config.rest q)=.raised) : Guarded lib fs s q := by
  rcases h with h | h | h
  · exact ⟨fun hh => absurd hh h,fun hh => absurd hh h,fun hh => absurd hh h⟩
  · exact ⟨by simp [h],by simp [h],by simp [h]⟩
  · exact ⟨by simp [h],by simp [h],by simp [h]⟩

/-- After any requests, the responses to the next one are made from one file, and they keep to the
root and to the prefix exactly if the request is guarded. -/
theorem static_confined_iff (lib : Library) (fs : FileSystem) (config : Config)
    (requests : List Request) (request : Request) :
    let s := StaticFiles.after lib fs {config:=config} requests
    let outcome := (s.call lib fs request).2
    outcome.Genuine fs ∧ (outcome.Confined fs config.root.path ∧
          (outcome.Answers request → config.UnderPrefix request.conn.path) ↔
        Guarded lib fs s request) := by
  intro s outcome
  have hn : Memo fs {config:=config} := ⟨by simp,by simp⟩
  obtain ⟨hm,hc⟩ := memo_after lib hn requests
  have hd : Decides lib fs s request outcome := (call_decides lib hm request).2.2
  change s.config=config at hc
  clear_value outcome
  rw [← hc]
  cases hd with
  | passes h =>
    refine ⟨passOn_genuine request.hasNext,fun _ => ?_,fun _ => ⟨passOn_confined _ _,?_⟩⟩
    · exact guarded_of_not_found (h.imp id fun h => .inl h)
    · exact fun ha => absurd rfl ha.1
  | raises h =>
    refine ⟨trivial,fun _ => ?_,fun _ => ⟨trivial,fun ha => absurd rfl ha.2⟩⟩
    rcases h with h | ⟨hr,path,h⟩
    · exact guarded_of_not_found (.inr (.inr h))
    · exact ⟨by simp [h,hr],by simp [hr],by simp [hr]⟩
  | refuses han h =>
    refine ⟨by simp [Outcome.Genuine,respond],⟨fun ⟨_,hu⟩ => ?_,fun hg => ?_⟩⟩
    · refine ⟨fun _ _ => hu ⟨?_,by simp⟩,by simp [h],by simp [h]⟩
      unfold passOn
      split_ifs <;> simp [respond]
    · exact ⟨trivial,fun _ => hg.segment han (.inl h)⟩
  | @serves han readable path h file fits =>
    refine ⟨answer_genuine fits _ _,⟨fun ⟨hl,hu⟩ => ?_,fun hg => ⟨?_,?_⟩⟩⟩
    · refine ⟨fun _ _ => hu ⟨?_,by simp⟩,fun _ _ other ho _ => ?_,fun _ _ other ho hs _ => ?_⟩
      · unfold passOn
        split_ifs <;> simp
      · obtain rfl := Located.found.inj (h.symm.trans ho)
        exact hl
      · obtain rfl := Located.found.inj (h.symm.trans ho)
        rw [← hs]
        exact hl
    · by_cases hs : (chosen lib fs request.conn path).1=path
      · change Leads fs s.config.root.path (chosen lib fs request.conn path).1
        rw [hs]
        by_cases hlo : s.config.Loops lib fs (s.config.rest request)
        · exact hg.loop han readable path h hs hlo
        · exact (locate_found h).2 hlo
      · exact hg.sibling han readable path h hs
    · exact fun _ => hg.segment han (.inr ⟨readable,path,h⟩)

/-- Libraries for texts without escapes, numbers and dates. -/
def plainLibrary : Library where
  unquote := id
  strip := strip isSpace
  int _ := none
  nonPositive _ := false
  guessType _ := none
  formatdate _ := []
  parsedate _ := none

/-- A root with a file, a sibling and a link that lead out of it, and a link to itself. -/
def leakyRoot : FileSystem where
  entries :=
    [([ascii "srv"],.directory),([ascii "srv",ascii "key"],.file 0 (ascii "secret")),
      ([ascii "srv",ascii "pub"],.directory),
      ([ascii "srv",ascii "pub",ascii "a"],.file 0 (ascii "public")),
      ([ascii "srv",ascii "pub",ascii "a.gz"],.link (ascii "../key")),
      ([ascii "srv",ascii "pub",ascii "leak"],.link (ascii "../key")),
      ([ascii "srv",ascii "pub",ascii "loop"],.link (ascii "loop"))]

def leakyConfig : Config where
  root := ⟨false,[ascii "srv",ascii "pub"]⟩
  root_names := by decide +kernel
  urlPrefix := ascii "/static"
  cacheEnabled := false
  index := none
  conditional := false
  statTtl := 0

def Request.get (path : Bytes) (headers : HeaderList) : Request :=
  ⟨⟨true,ascii "GET",path,headers,false⟩,true,false,0⟩

def Outcome.delivery : Outcome → Option (Bytes × Bytes)
  | .sent (some file) responses => some (file,octets responses)
  | _ => none

/-- The two slashes that are left of three are kept, so the path is not below the root. -/
example : (StaticFiles.call plainLibrary leakyRoot {config:=leakyConfig}
    (.get (ascii "/static/loop///srv/pub/leak") [])).2=.sent none [respond 400 []] := by
  decide +kernel

/-- The sibling that gzip is served from, a link behind a loop, and a path that only begins like
the prefix. -/
theorem static_unconfined :
    let delivery (path : Bytes) (headers : HeaderList) :=
      (StaticFiles.call plainLibrary leakyRoot {config:=leakyConfig} (.get path headers)).2.delivery
    (delivery (ascii "/static/a") [(ascii "accept-encoding",ascii "gzip")] =
          some (ascii "/srv/pub/a.gz",ascii "secret") ∧
        ¬ Leads leakyRoot leakyConfig.root.path (ascii "/srv/pub/a.gz")) ∧
      (delivery (ascii "/static/loop/../leak") []=some (ascii "/srv/pub/leak",ascii "secret") ∧
        ¬ Leads leakyRoot leakyConfig.root.path (ascii "/srv/pub/leak")) ∧
      (delivery (ascii "/statica") []=some (ascii "/srv/pub/a",ascii "public") ∧
        ¬ leakyConfig.UnderPrefix (ascii "/statica")) := by
  decide +kernel

end BlackBull.Static
