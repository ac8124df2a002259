import Egl.Property

namespace Egl

inductive ArgumentKind
  | number
  | optional
  | tristate
  | pixmap
  deriving DecidableEq

namespace ArgumentKind

abbrev Arg : ArgumentKind → Type
  | number => Int32
  | optional => Option Int32
  | tristate => Option Bool
  | pixmap => Option Int32

/-- The number that stands for an argument in an attribute list. Where there is none, any value
will do; a missing pixmap has a code of its own. -/
def encode : (kind : ArgumentKind) → kind.Arg → Int32
  | number, value => value
  | optional, value => value.getD Code.dontCare
  | tristate, none => Code.dontCare
  | tristate, some yes => if yes then 1 else 0
  | pixmap, value => value.getD Code.none

end ArgumentKind

/-- The criteria of a filter, in the order in which an attribute list has them. -/
inductive Criterion
  | alphaMaskSize
  | alphaSize
  | bindToTextureRgb
  | bindToTextureRgba
  | blueSize
  | bufferSize
  | colorBufferType
  | configCaveat
  | configId
  | conformant
  | depthSize
  | greenSize
  | level
  | luminanceSize
  | matchNativePixmap
  | nativeRenderable
  | maxSwapInterval
  | minSwapInterval
  | redSize
  | sampleBuffers
  | samples
  | stencilSize
  | renderableType
  | surfaceType
  | transparentType
  | transparentRedValue
  | transparentGreenValue
  | transparentBlueValue
  deriving DecidableEq

namespace Criterion

def all : List Criterion :=
  [alphaMaskSize, alphaSize, bindToTextureRgb, bindToTextureRgba, blueSize, bufferSize,
    colorBufferType, configCaveat, configId, conformant, depthSize, greenSize, level,
    luminanceSize, matchNativePixmap, nativeRenderable, maxSwapInterval, minSwapInterval, redSize,
    sampleBuffers, samples, stencilSize, renderableType, surfaceType, transparentType,
    transparentRedValue, transparentGreenValue, transparentBlueValue]

def name : Criterion → String
  | alphaMaskSize => "alpha_mask_size"
  | alphaSize => "alpha_size"
  | bindToTextureRgb => "bind_to_texture_rgb"
  | bindToTextureRgba => "bind_to_texture_rgba"
  | blueSize => "blue_size"
  | bufferSize => "buffer_size"
  | colorBufferType => "color_buffer_type"
  | configCaveat => "config_caveat"
  | configId => "config_id"
  | conformant => "conformant"
  | depthSize => "depth_size"
  | greenSize => "green_size"
  | level => "level"
  | luminanceSize => "luminance_size"
  | matchNativePixmap => "match_native_pixmap"
  | nativeRenderable => "native_renderable"
  | maxSwapInterval => "max_swap_interval"
  | minSwapInterval => "min_swap_interval"
  | redSize => "red_size"
  | sampleBuffers => "sample_buffers"
  | samples => "samples"
  | stencilSize => "stencil_size"
  | renderableType => "renderable_type"
  | surfaceType => "surface_type"
  | transparentType => "transparent_type"
  | transparentRedValue => "transparent_red_value"
  | transparentGreenValue => "transparent_green_value"
  | transparentBlueValue => "transparent_blue_value"

/-- The attribute that stands for a criterion in an attribute list. -/
def code : Criterion → Int32
  | alphaMaskSize => Code.alphaMaskSize
  | alphaSize => Code.alphaSize
  | bindToTextureRgb => Code.bindToTextureRgb
  | bindToTextureRgba => Code.bindToTextureRgba
  | blueSize => Code.blueSize
  | bufferSize => Code.bufferSize
  | colorBufferType => Code.colorBufferType
  | configCaveat => Code.configCaveat
  | configId => Code.configId
  | conformant => Code.conformant
  | depthSize => Code.depthSize
  | greenSize => Code.greenSize
  | level => Code.level
  | luminanceSize => Code.luminanceSize
  | matchNativePixmap => Code.matchNativePixmap
  | nativeRenderable => Code.nativeRenderable
  | maxSwapInterval => Code.maxSwapInterval
  | minSwapInterval => Code.minSwapInterval
  | redSize => Code.redSize
  | sampleBuffers => Code.sampleBuffers
  | samples => Code.samples
  | stencilSize => Code.stencilSize
  | renderableType => Code.renderableType
  | surfaceType => Code.surfaceType
  | transparentType => Code.transparentType
  | transparentRedValue => Code.transparentRedValue
  | transparentGreenValue => Code.transparentGreenValue
  | transparentBlueValue => Code.transparentBlueValue

/-- What a criterion takes as its argument. -/
def argumentKind : Criterion → ArgumentKind
  | alphaMaskSize => .number
  | alphaSize => .number
  | bindToTextureRgb => .tristate
  | bindToTextureRgba => .tristate
  | blueSize => .number
  | bufferSize => .number
  | colorBufferType => .number
  | configCaveat => .optional
  | configId => .optional
  | conformant => .number
  | depthSize => .number
  | greenSize => .number
  | level => .number
  | luminanceSize => .number
  | matchNativePixmap => .pixmap
  | nativeRenderable => .tristate
  | maxSwapInterval => .optional
  | minSwapInterval => .optional
  | redSize => .number
  | sampleBuffers => .number
  | samples => .number
  | stencilSize => .number
  | renderableType => .number
  | surfaceType => .number
  | transparentType => .number
  | transparentRedValue => .optional
  | transparentGreenValue => .optional
  | transparentBlueValue => .optional

abbrev Arg (c : Criterion) : Type := c.argumentKind.Arg

def ofName? (name : String) : Option Criterion := all.find? (·.name = name)

end Criterion

abbrev Setting := (c : Criterion) × c.Arg

end Egl
