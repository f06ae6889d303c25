import ShaderBytecode.Container.Basic
import ShaderBytecode.Resources.Parser
import ShaderBytecode.Signature.Parser

set_option autoImplicit false

/-! # Looking into chunks

The resource table and the signatures of a container, each read from the first chunk that has the tag
in question. An error tells the chunk. -/

namespace ShaderBytecode

namespace Tag

/-- The tag of the other form of the same signature. -/
def otherForm? (tag : Tag) : Option Tag :=
  if tag = isgn then some isg1
  else if tag = osgn then some osg1
  else if tag = isg1 then some isgn
  else if tag = osg1 then some osgn
  else none

end Tag

namespace Container

/-- The resource table, if there is one. -/
def resources? (container : Container) : Option (Except ContainerError ResourceTable) :=
  (container.chunk? .rdef).map fun chunk =>
    (ResourceTable.parse chunk.data).mapError (.badResourceChunk chunk.tag)

/-- The chunk of a signature: the first with the given tag, else the first with the tag of the other
    form. -/
def signatureChunk? (container : Container) (tag : Tag) : Option Chunk :=
  container.chunk? tag <|> tag.otherForm?.bind container.chunk?

/-- The signature under the given tag or that of the other form, if there is one. -/
def signature? (container : Container) (tag : Tag) : Option (Except ContainerError Signature) :=
  (container.signatureChunk? tag).map fun chunk =>
    (Signature.parseTagged chunk.tag chunk.data).mapError (.badSignatureChunk chunk.tag)

end Container

end ShaderBytecode
