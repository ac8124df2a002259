import Egl.Bitmask
import Egl.Code
import Egl.Numeral

namespace Egl

/-- The value of a property. Masks and enumerations are numbers. -/
inductive PropertyValue
  | number (value : Int32)
  | flag (value : Bool)
  deriving DecidableEq

inductive PropertyKind
  | number
  | flag
  | mask (mask : Bitmask)
  | colorBuffer
  | caveat
  | transparency

def colorBufferName (value : Int32) : String :=
  if value = Code.rgbBuffer then "RGB"
  else if value = Code.luminanceBuffer then "LUMINANCE"
  else "UNKNOWN"

def caveatName (value : Int32) : String :=
  if value = Code.none then "NONE"
  else if value = Code.slowConfig then "SLOW"
  else if value = Code.nonConformantConfig then "NON_CONFORMANT"
  else "UNKNOWN"

def transparencyName (value : Int32) : String :=
  if value = Code.none then "NONE"
  else if value = Code.transparentRgb then "TRANSPARENT_RGB"
  else "UNKNOWN"

def flagName (value : Bool) : String := if value then "true" else "false"

namespace PropertyKind

/-- The value of a raw attribute: a flag is raised by one alone, and a mask loses the bits that it
does not know. -/
def value (kind : PropertyKind) (raw : Int32) : PropertyValue :=
  match kind with
  | flag => .flag (raw = 1)
  | mask m => .number (m.truncate raw)
  | number | colorBuffer | caveat | transparency => .number raw

def text (kind : PropertyKind) (raw : Int32) : String :=
  match kind with
  | number => Numeral.decimal raw.toInt
  | flag => flagName (raw = 1)
  | mask m => m.text (m.truncate raw)
  | colorBuffer => colorBufferName raw
  | caveat => caveatName raw
  | transparency => transparencyName raw

end PropertyKind

inductive Property
  | alphaMaskSize
  | alphaSize
  | bindToTextureRgb
  | bindToTextureRgba
  | blueSize
  | bufferSize
  | colorBufferType
  | configCaveat
  | configId
  | conformant
  | depthSize
  | greenSize
  | level
  | luminanceSize
  | maxPbufferHeight
  | maxPbufferPixels
  | maxPbufferWidth
  | maxSwapInterval
  | minSwapInterval
  | nativeRenderable
  | nativeVisualId
  | nativeVisualType
  | redSize
  | renderableType
  | sampleBuffers
  | samples
  | stencilSize
  | surfaceType
  | transparentBlueValue
  | transparentGreenValue
  | transparentRedValue
  | transparentType
  deriving DecidableEq

namespace Property

def all : List Property :=
  [alphaMaskSize, alphaSize, bindToTextureRgb, bindToTextureRgba, blueSize, bufferSize,
    colorBufferType, configCaveat, configId, conformant, depthSize, greenSize, level,
    luminanceSize, maxPbufferHeight, maxPbufferPixels, maxPbufferWidth, maxSwapInterval,
    minSwapInterval, nativeRenderable, nativeVisualId, nativeVisualType, redSize, renderableType,
    sampleBuffers, samples, stencilSize, surfaceType, transparentBlueValue,
    transparentGreenValue, transparentRedValue, transparentType]

def name : Property → String
  | alphaMaskSize => "alpha_mask_size"
  | alphaSize => "alpha_size"
  | bindToTextureRgb => "bind_to_texture_rgb"
  | bindToTextureRgba => "bind_to_texture_rgba"
  | blueSize => "blue_size"
  | bufferSize => "buffer_size"
  | colorBufferType => "color_buffer_type"
  | configCaveat => "config_caveat"
  | configId => "config_id"
  | conformant => "conformant"
  | depthSize => "depth_size"
  | greenSize => "green_size"
  | level => "level"
  | luminanceSize => "luminance_size"
  | maxPbufferHeight => "max_pbuffer_height"
  | maxPbufferPixels => "max_pbuffer_pixels"
  | maxPbufferWidth => "max_pbuffer_width"
  | maxSwapInterval => "max_swap_interval"
  | minSwapInterval => "min_swap_interval"
  | nativeRenderable => "native_renderable"
  | nativeVisualId => "native_visual_id"
  | nativeVisualType => "native_visual_type"
  | redSize => "red_size"
  | renderableType => "renderable_type"
  | sampleBuffers => "sample_buffers"
  | samples => "samples"
  | stencilSize => "stencil_size"
  | surfaceType => "surface_type"
  | transparentBlueValue => "transparent_blue_value"
  | transparentGreenValue => "transparent_green_value"
  | transparentRedValue => "transparent_red_value"
  | transparentType => "transparent_type"

def code : Property → Int32
  | alphaMaskSize => Code.alphaMaskSize
  | alphaSize => Code.alphaSize
  | bindToTextureRgb => Code.bindToTextureRgb
  | bindToTextureRgba => Code.bindToTextureRgba
  | blueSize => Code.blueSize
  | bufferSize => Code.bufferSize
  | colorBufferType => Code.colorBufferType
  | configCaveat => Code.configCaveat
  | configId => Code.configId
  | conformant => Code.conformant
  | depthSize => Code.depthSize
  | greenSize => Code.greenSize
  | level => Code.level
  | luminanceSize => Code.luminanceSize
  | maxPbufferHeight => Code.maxPbufferHeight
  | maxPbufferPixels => Code.maxPbufferPixels
  | maxPbufferWidth => Code.maxPbufferWidth
  | maxSwapInterval => Code.maxSwapInterval
  | minSwapInterval => Code.minSwapInterval
  | nativeRenderable => Code.nativeRenderable
  | nativeVisualId => Code.nativeVisualId
  | nativeVisualType => Code.nativeVisualType
  | redSize => Code.redSize
  | renderableType => Code.renderableType
  | sampleBuffers => Code.sampleBuffers
  | samples => Code.samples
  | stencilSize => Code.stencilSize
  | surfaceType => Code.surfaceType
  | transparentBlueValue => Code.transparentBlueValue
  | transparentGreenValue => Code.transparentGreenValue
  | transparentRedValue => Code.transparentRedValue
  | transparentType => Code.transparentType

def kind : Property → PropertyKind
  | bindToTextureRgb | bindToTextureRgba | nativeRenderable => .flag
  | colorBufferType => .colorBuffer
  | configCaveat => .caveat
  | conformant | renderableType => .mask .renderable
  | surfaceType => .mask .surface
  | transparentType => .transparency
  | _ => .number

def ofName? (name : String) : Option Property := all.find? (·.name = name)

def described : List Property :=
  [configId, redSize, greenSize, blueSize, alphaSize, bufferSize, alphaMaskSize, depthSize,
    stencilSize, bindToTextureRgb, bindToTextureRgba, colorBufferType, configCaveat, conformant,
    level, luminanceSize, maxPbufferWidth, maxPbufferHeight, maxPbufferPixels, maxSwapInterval,
    minSwapInterval, nativeRenderable, nativeVisualId, nativeVisualType, renderableType,
    sampleBuffers, samples, surfaceType, transparentType, transparentRedValue,
    transparentGreenValue, transparentBlueValue]

end Property

end Egl
